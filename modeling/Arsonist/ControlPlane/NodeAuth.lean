import Arsonist.ControlPlane.App
import Arsonist.Security.NodeCredentials

/-! Who may report a result. `require_node_auth` establishes which node is calling; the
handler of `job_result` does not compare it with the nodes that the job is assigned to. -/
namespace Arsonist.ControlPlane
open Arsonist.Library Arsonist.Shared Arsonist.Security

/-- `ARSONIST_API_TOKEN`, `ARSONIST_JWT_SECRET` and the cryptography. -/
structure AuthConfig where
  crypto : Crypto
  apiToken : String := ""
  jwtSecret : String := ""

/-- `POST /job_result/{job_id}`: the parsed body and the headers that are read. -/
structure ResultRequest where
  jobId : JobId
  payload : Json.Object
  authorization : Option String := none
  nodeJwt : Option String := none
  nodeId : Option String := none
  authTimestamp : Option String := none
  authSignature : Option String := none

def ResultRequest.path (req : ResultRequest) : String := "/job_result/" ++ req.jobId

/-- `require_token`: the refusal, if there is one. -/
def requireToken (auth : AuthConfig) (authorization : Option String) : Option Response :=
  if auth.apiToken = "" then none
  else
    match authorization with
    | none => some (.httpError 401 "missing bearer token")
    | some text =>
      if "Bearer ".toList.isPrefixOf text.toList = false then
        some (.httpError 401 "missing bearer token")
      else if Text.stripped (text.toList.drop 7) ≠ auth.apiToken.toList then
        some (.httpError 403 "invalid token")
      else none

/-- The id that the node's token gives, if the request carries one that counts. -/
def ResultRequest.claimId (auth : AuthConfig) (req : ResultRequest) : Option NodeId :=
  match req.nodeJwt.filter (· ≠ "") with
  | none => none
  | some token => (verifyNodeToken auth.crypto auth.jwtSecret (Text.strip token)).filter (· ≠ "")

/-- The node id of the body, if it is one that counts. -/
def ResultRequest.bodyId (req : ResultRequest) : Option Json :=
  (req.payload.lookup "node_id").filter fun v => v.truthy

/-- The node id of the header, if it is not empty. -/
def ResultRequest.headerId (req : ResultRequest) : Option NodeId := req.nodeId.filter (· ≠ "")

/-- A value that is absent, or equal to the expected one. -/
def agrees {α : Type} (o : Option α) (a : α) : Prop := o = none ∨ o = some a

instance {α : Type} [DecidableEq α] (o : Option α) (a : α) : Decidable (agrees o a) :=
  inferInstanceAs (Decidable (_ ∨ _))

/-- `require_node_auth`: the calling node, or the refusal. An id in the body that is no text
ends in an exception. -/
def requireNodeAuth (auth : AuthConfig) (s : State) (req : ResultRequest) :
    Except Response NodeId :=
  match req.claimId auth with
  | some claim =>
    if ¬ agrees (req.bodyId.map Json.asStr) (some claim) then
      .error (.httpError 403 "node id mismatch vs jwt")
    else if ¬ agrees req.headerId claim then
      .error (.httpError 403 "node header mismatch vs jwt")
    else .ok claim
  | none =>
    match req.headerId.map Json.str |>.or req.bodyId with
    | none => .error (.httpError 401 "missing node identity")
    | some (.str node) =>
      match (s.getNodeSecret node).filter (· ≠ "") with
      | none => .error (.httpError 403 "unknown node")
      | some secret =>
        match verifyHeaders auth.crypto s.now secret node "POST" req.path req.payload
            req.authTimestamp req.authSignature with
        | some true => .ok node
        | some false => .error (.httpError 403 "invalid node signature")
        | none => .error .raised
    | some _ => .error .raised

/-- The request `job_result`, with its dependencies. -/
def jobResultRequest (cfg : Config) (auth : AuthConfig) (s : State) (req : ResultRequest)
    (env : Surroundings) : State × Response :=
  match requireToken auth req.authorization with
  | some refusal => (s,refusal)
  | none =>
    match requireNodeAuth auth s req with
    | .error refusal => (s,refusal)
    | .ok node => s.jobResult cfg node req.jobId req.payload env

/-! ### What authentication establishes -/

/-- The request comes from the node: its token says so and neither header nor body disagrees,
or, without a token that counts, the node is named by the header or else by the body and has
signed the request with its stored secret. -/
def Authentic (auth : AuthConfig) (s : State) (req : ResultRequest) (node : NodeId) : Prop :=
  match req.claimId auth with
  | some claim =>
    node = claim ∧ agrees (req.bodyId.map Json.asStr) (some claim) ∧ agrees req.headerId claim
  | none => (req.headerId.map Json.str).or req.bodyId = some (.str node) ∧
    ∃ secret, s.getNodeSecret node = some secret ∧ secret ≠ "" ∧
      Signed auth.crypto s.now secret node "POST" req.path req.payload req.authTimestamp
        req.authSignature

theorem requireNodeAuth_iff (auth : AuthConfig) (s : State) (req : ResultRequest)
    (node : NodeId) : requireNodeAuth auth s req = .ok node ↔ Authentic auth s req node := by
  unfold requireNodeAuth Authentic
  cases req.claimId auth with
  | some claim =>
    dsimp only
    split_ifs with hbody hheader
    · simp [hbody, hheader, eq_comm]
    · simp [hheader]
    · simp [hbody]
  | none =>
    dsimp only
    cases (req.headerId.map Json.str).or req.bodyId with
    | none => simp
    | some v =>
      cases v with
      | str name =>
        dsimp only
        rw [Option.some.injEq, Json.str.injEq]
        cases hsecret : (s.getNodeSecret name).filter (· ≠ "") with
        | none =>
          constructor
          · simp
          · rintro ⟨rfl,secret,hget,hne,-⟩
            rw [hget, Option.filter_some_pos (by simpa using hne)] at hsecret
            simp at hsecret
        | some secret =>
          obtain ⟨hget,hne⟩ := Option.filter_eq_some_iff.mp hsecret
          have hsigned := verifyHeaders_iff auth.crypto s.now secret name "POST" req.path
            req.payload req.authTimestamp req.authSignature
          dsimp only
          constructor
          · intro h
            cases hv : verifyHeaders auth.crypto s.now secret name "POST" req.path req.payload
                req.authTimestamp req.authSignature with
            | none => rw [hv] at h; simp at h
            | some ok =>
              rw [hv] at h
              cases ok with
              | false => simp at h
              | true =>
                obtain rfl := Except.ok.inj h
                exact ⟨rfl,secret,hget,by simpa using hne,hsigned.mp hv⟩
          · rintro ⟨rfl,secret',hget',-,hs⟩
            obtain rfl := Option.some.inj (hget.symm.trans hget')
            rw [hsigned.mpr hs]
      | _ => simp

/-! ### Recording -/

/-- The nodes to which the current attempt of a job has been dispatched. -/
def currentAttempt (job : JobId) (actions : List Action) : List NodeId :=
  actions.foldl (fun nodes a =>
    match a with
    | .started j => if j = job then [] else nodes
    | .dispatched n j => if j = job then nodes ++ [n] else nodes
    | _ => nodes) []

/-- A request of an authenticated node is recorded only if the job's current attempt has been
dispatched to that node, and otherwise leaves every job record alone. -/
def OnlyAssigneesDecide (cfg : Config) (auth : AuthConfig) (s : State) (req : ResultRequest)
    (env : Surroundings) : Prop :=
  ∀ node, requireNodeAuth auth s req = .ok node →
    let r := jobResultRequest cfg auth s req env
    (r.2 = .ok "recorded" → node ∈ currentAttempt req.jobId s.actions) ∧
    (node ∉ currentAttempt req.jobId s.actions → ∀ id, r.1.job? id = s.job? id)

/-- What is recorded comes from an authentic node and is about a known job; what is authentic
and about a known job is recorded; and what is not recorded changes nothing. -/
structure OnlyAuthenticDecide (cfg : Config) (auth : AuthConfig) (s : State)
    (req : ResultRequest) (env : Surroundings) : Prop where
  recorded : (jobResultRequest cfg auth s req env).2 = .ok "recorded" →
    ∃ node job, Authentic auth s req node ∧ s.job? req.jobId = some job ∧
      (jobResultRequest cfg auth s req env).1 =
        (s.recordResult cfg node job req.payload).scheduleOnce cfg env
  authentic : requireToken auth req.authorization = none → ∀ node, Authentic auth s req node →
    s.job? req.jobId ≠ none → (jobResultRequest cfg auth s req env).2 = .ok "recorded"
  refused : (jobResultRequest cfg auth s req env).2 ≠ .ok "recorded" →
    (jobResultRequest cfg auth s req env).1 = s

/-- A refusal is not the answer of a handler. -/
def Response.isRefusal : Response → Prop
  | .ok _ => False
  | .httpError _ _ => True
  | .raised => True

theorem requireToken_refusal {auth : AuthConfig} {authorization : Option String}
    {refusal : Response} (h : requireToken auth authorization = some refusal) :
    refusal.isRefusal := by
  unfold requireToken at h
  split_ifs at h
  cases authorization with
  | none =>
    rw [← Option.some.inj h]
    trivial
  | some text =>
    dsimp only at h
    split_ifs at h <;> rw [← Option.some.inj h] <;> trivial

theorem requireNodeAuth_refusal {auth : AuthConfig} {s : State} {req : ResultRequest}
    {refusal : Response} (h : requireNodeAuth auth s req = .error refusal) :
    refusal.isRefusal := by
  unfold requireNodeAuth at h
  cases hclaim : req.claimId auth with
  | some claim =>
    rw [hclaim] at h
    dsimp only at h
    split_ifs at h <;> rw [← Except.error.inj h] <;> trivial
  | none =>
    rw [hclaim] at h
    dsimp only at h
    cases hid : (req.headerId.map Json.str).or req.bodyId with
    | none =>
      rw [hid] at h
      rw [← Except.error.inj h]
      trivial
    | some v =>
      rw [hid] at h
      cases v with
      | str node =>
        dsimp only at h
        cases hsecret : (s.getNodeSecret node).filter (· ≠ "") with
        | none =>
          rw [hsecret] at h
          rw [← Except.error.inj h]
          trivial
        | some secret =>
          rw [hsecret] at h
          dsimp only at h
          split at h
          · simp at h
          · rw [← Except.error.inj h]
            trivial
          · rw [← Except.error.inj h]
            trivial
      | _ =>
        rw [← Except.error.inj h]
        trivial

/-- Tokens are named after their nodes. -/
def namedTokens : AuthConfig where
  crypto := {
    sha256 := id
    mac := countingMac
    jwtDecode := fun token _ => some [("sub",.str token),("scope",.str "arsonist-node")] }
  jwtSecret := "s"

/-- Job `j` runs on node `a`; node `c` has joined afterwards. -/
def runsOnA : List Op :=
  [.registerNode (cpuNode "a"),.submitJob (soloJob "j") allAccept,.registerNode (cpuNode "c")]

def reportOfC : ResultRequest := { jobId := "j", payload := succeeded, nodeJwt := some "c" }

end Arsonist.ControlPlane
