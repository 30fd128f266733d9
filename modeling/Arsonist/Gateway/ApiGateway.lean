import Arsonist.Audit.AuditLog
import Arsonist.Billing.Invoices
import Arsonist.Gateway.Auth

/-! The routes of the gateway under `/v12`, with the middleware that comes before those of an
organisation. What is drawn at random (ids, salts, secrets) is part of a call. -/
namespace Arsonist.Gateway
open Arsonist.Library Arsonist.Identity Arsonist.Audit Arsonist.Billing

/-- What has been handed out and recorded. No handler reads it. -/
structure Given where
  secrets : List (String × String) := []
  jwts : List Issued := []
  revocations : List String := []
  usage : List (String × UsageRow) := []

structure GatewayState where
  registry : Registry := {}
  tracker : UsageTracker := Table.empty
  invoices : Table Invoice := Table.empty
  limits : Table CustomLimits := Table.empty
  audit : AuditLog := []
  given : Given := {}

/-- What is drawn for a new organisation. -/
structure Draws where
  orgId : String
  userId : String
  salt : String
  tokenId : String
  secret : String

/-- The body of `POST /v12/orgs`: its fields as text, where they are given. -/
structure BootstrapRequest where
  authorization : Option String := none
  name : Option String := none
  slug : Option String := none
  ownerEmail : Option String := none
  ownerPassword : Option String := none
  ownerName : Option String := none

structure BootstrapReply where
  organization : Organization
  ownerUserId : String
  apiKey : Registry.NewToken

/-- The body of `POST /v12/session`. -/
structure SessionRequest where
  email : Option String := none
  password : Option String := none
  orgId : Option String := none

structure SessionReply where
  accessToken : String
  expiresIn : ℤ

/-- A request to a route of an organisation. -/
inductive OrgRoute where
  | getOrg
  | usage
  /-- `none` are prices that `float` does not read. -/
  | invoice (invoiceId : String) (period : Option String) (prices : Option (List (String × ℚ)))
  | tokensList
  | tokensCreate (tokenId secret : String)
  | tokensDel (tokenId : String)
  | auditLog

structure OrgRequest where
  orgId : String
  authorization : Option String := none
  route : OrgRoute

inductive OrgReply where
  | organization (org : Organization) (subscription : Subscription)
  | usage (totals : List MetricTotal) (recent : List UsageRow)
  | invoice (doc : Invoice)
  | tokens (views : List Registry.TokenView)
  | newToken (token : Registry.NewToken)
  | revoked
  | events (rows : List AuditRow)

/-- What the limits of the tenant say about a request: the rate, then the concurrency. An admitted
request takes some time. -/
inductive Admission where
  | admitted (latencyMs : ℚ)
  | rateLimited (n : ℚ)
  | concurrencyLimit (reason : String)

def OrgRequest.path (req : OrgRequest) : String :=
  "/v12/orgs/" ++ req.orgId ++
    match req.route with
    | .getOrg => ""
    | .usage => "/usage"
    | .invoice _ _ _ => "/invoices"
    | .tokensList => "/api_tokens"
    | .tokensCreate _ _ => "/api_tokens"
    | .tokensDel tokenId => "/api_tokens/" ++ tokenId
    | .auditLog => "/audit"

namespace GatewayState
variable (env : GatewayEnv) (s : GatewayState)

def appendAudit (row : AuditRow) : GatewayState := { s with audit := s.audit.append row }

/-- `log_security_event`. -/
def logSecurityEvent (now : ℚ) (event : String) (orgId : Option String) (fields : Json.Object) :
    GatewayState :=
  s.appendAudit {
    ts := now, type := "security", orgId := orgId, fields := ("event",.str event) :: fields }

section Tokens

def createOrgApiToken (now : ℚ) (tokenId secret orgId name : String) :
    Option (GatewayState × Registry.NewToken) :=
  (s.registry.createOrgApiToken env.platform now tokenId secret orgId name).map fun x =>
    ({ s with registry := x.1,
              given := { s.given with secrets := s.given.secrets ++ [(secret,tokenId)] } },x.2)

def revokeOrgApiToken (tokenId : String) : GatewayState × Bool :=
  let x := s.registry.revokeOrgApiToken tokenId
  ({ s with registry := x.1,
            given := { s.given with
              revocations := s.given.revocations ++ if x.2 then [tokenId] else [] } },x.2)

def revokeOrgApiTokenForOrg (orgId tokenId : String) : GatewayState × Bool :=
  let x := s.registry.revokeOrgApiTokenForOrg orgId tokenId
  ({ s with registry := x.1,
            given := { s.given with
              revocations := s.given.revocations ++ if x.2 then [tokenId] else [] } },x.2)

/-- The old token of a rotation is revoked even when the new one cannot be made. -/
def rotateOrgApiToken (now : ℚ) (newTokenId secret tokenId : String) :
    GatewayState × Option Registry.NewToken :=
  let x := s.registry.rotateOrgApiToken env.platform now newTokenId secret tokenId
  let old := (s.registry.apiTokens.get? tokenId).filter fun rec => !rec.revoked
  ({ s with registry := x.1,
            given := { s.given with
              secrets := s.given.secrets ++ if x.2.isSome then [(secret,newTokenId)] else [],
              revocations := s.given.revocations ++ if old.isSome then [tokenId] else [] } },x.2)

end Tokens

section Sessions

def issueUserJwt (now : ℚ) (userId orgId role : String) (ttlSec : Option ℤ) :
    Option (GatewayState × Issued) :=
  (env.issueUserJwt now userId orgId role ttlSec).map fun issued =>
    ({ s with given := { s.given with jwts := s.given.jwts ++ [issued] } },issued)

def issueApiKeyJwt (now : ℚ) (orgId tokenId : String) (ttlSec : Option ℤ) :
    Option (GatewayState × Issued) :=
  (env.issueApiKeyJwt now orgId tokenId ttlSec).map fun issued =>
    ({ s with given := { s.given with jwts := s.given.jwts ++ [issued] } },issued)

def record (orgId : String) (row : UsageRow) : GatewayState :=
  { s with tracker := UsageTracker.record s.tracker orgId row,
           given := { s.given with usage := s.given.usage ++ [(orgId,row)] } }

/-- `POST /v12/orgs`. -/
def bootstrapOrg (now : ℚ) (draws : Draws) (req : BootstrapRequest) :
    GatewayState × Reply BootstrapReply :=
  if env.bootstrapToken = "" ∨ req.authorization ≠ some ("Bearer " ++ env.bootstrapToken) then
    (s,.error { status := 403, detail := "bootstrap forbidden" })
  else
    let x := s.registry.createOrganization env.platform draws.orgId (req.name.getD "Acme")
      (req.slug.getD "acme")
    let y := x.1.createUser env.platform draws.userId draws.salt
      (req.ownerEmail.getD "owner@example.com") (req.ownerName.getD "Owner")
      (req.ownerPassword.getD "change-me-now")
    match y.1.addUserToOrg draws.userId draws.orgId .admin with
    | none => ({ s with registry := y.1 },.error serverError)
    | some r =>
      match createOrgApiToken env { s with registry := r } now draws.tokenId draws.secret
        draws.orgId "primary" with
      | none => ({ s with registry := r },.error serverError)
      | some (s,token) =>
        (s.appendAudit {
            ts := now,
            type := "org_bootstrap",
            orgId := some draws.orgId,
            fields := [("user_id",.str draws.userId)] },
          .ok { organization := x.2, ownerUserId := draws.userId, apiKey := token })

/-- `POST /v12/session`. -/
def session (now : ℚ) (req : SessionRequest) : GatewayState × Reply SessionReply :=
  let email := req.email.getD ""
  let orgId := req.orgId.getD ""
  match (s.registry.getUserByEmail env.platform email).filter fun user =>
      Registry.verifyPassword env.platform user (req.password.getD "") with
  | none =>
    (s.logSecurityEvent now "auth_failure" none [("email",.str email)],
      .error { status := 401, detail := "invalid credentials" })
  | some user =>
    match s.registry.membership user.userId orgId with
    | none => (s,.error { status := 403, detail := "not a member of org" })
    | some role =>
      match s.issueUserJwt env now user.userId orgId role.value none with
      | none => (s,.error serverError)
      | some (s,issued) =>
        (s.appendAudit {
            ts := now,
            type := "session",
            orgId := some orgId,
            fields := [("user_id",.str user.userId)] },
          .ok { accessToken := issued.1, expiresIn := env.jwtTtlSec })

end Sessions

/-- The handlers of the routes of an organisation. A path without an organisation has no route. -/
def handle (now : ℚ) (req : OrgRequest) : Reply (GatewayState × OrgReply) :=
  if req.orgId = "" then .error { status := 404, detail := "Not Found" }
  else
    match req.route with
    | .getOrg =>
      (requireOrgCaller env s.registry now req.authorization req.orgId).bind fun _ =>
        match s.registry.getOrganization req.orgId with
        | none => .error { status := 404, detail := "unknown org" }
        | some org => .ok (s,.organization org (getSubscription s.limits s.registry req.orgId))
    | .usage =>
      (requireOrgCaller env s.registry now req.authorization req.orgId).bind fun _ =>
        .ok (s,.usage (UsageTracker.totals s.tracker req.orgId).entries
          (UsageTracker.recent s.tracker req.orgId 50))
    | .invoice invoiceId period prices =>
      (requirePermission env s.registry now .billingRead "billing role required" req.authorization
        req.orgId).bind fun _ =>
        match prices with
        | none => .error serverError
        | some prices =>
          let x := fromUsageSnapshot s.invoices s.tracker now invoiceId req.orgId
            (period.getD "current") prices
          .ok ({ s with invoices := x.1 },.invoice x.2)
    | .tokensList =>
      (requirePermission env s.registry now .orgManage "admin required" req.authorization
        req.orgId).bind fun _ => .ok (s,.tokens (s.registry.listOrgTokens req.orgId))
    | .tokensCreate tokenId secret =>
      (requirePermission env s.registry now .orgManage "admin required" req.authorization
        req.orgId).bind fun _ =>
        match s.createOrgApiToken env now tokenId secret req.orgId "manual" with
        | none => .error serverError
        | some (s,token) => .ok (s,.newToken token)
    | .tokensDel tokenId =>
      (requirePermission env s.registry now .orgManage "admin required" req.authorization
        req.orgId).bind fun _ =>
        let x := s.revokeOrgApiTokenForOrg req.orgId tokenId
        if x.2 = false then .error { status := 404, detail := "token not found" }
        else .ok (x.1,.revoked)
    | .auditLog =>
      (requireOrgCaller env s.registry now req.authorization req.orgId).bind fun _ =>
        .ok (s,.events (s.audit.query (some req.orgId) 200))

/-- The row that the gateway writes about a request of a tenant. -/
def gatewayRow (now : ℚ) (orgId path : String) (latencyMs : ℚ) (status : ℕ) : AuditRow :=
  { ts := now,
    type := "gateway",
    orgId := some orgId,
    fields := [("path",.str path),("latency_ms",.float latencyMs),("status",.int status)] }

/-- The answer of a handler, and the row about it. An exception leaves no row. -/
def answered (now : ℚ) (orgId : Option String) (path : String) (latencyMs : ℚ) :
    Reply (GatewayState × OrgReply) → GatewayState × Reply OrgReply
  | .ok (s,reply) =>
    (orgId.elim s fun orgId => s.appendAudit (gatewayRow now orgId path latencyMs 200),.ok reply)
  | .error e =>
    (if e.status = 500 then s
      else orgId.elim s fun orgId => s.appendAudit (gatewayRow now orgId path latencyMs e.status),
      .error e)

/-- A request to a route of an organisation, through the middleware. -/
def serve (now : ℚ) (admission : Admission) (req : OrgRequest) : GatewayState × Reply OrgReply :=
  match authenticateBearer env s.registry now req.authorization with
  | .error e =>
    if e.status = 500 then (s,.error e)
    else (s.logSecurityEvent now "auth_failure" none [("path",.str req.path)],.error e)
  | .ok res =>
    match res.tenant with
    | none =>
      let s := s.appendAudit {
        ts := now, type := "gateway", fields := [("path",.str req.path),("legacy",.bool true)] }
      answered s now none req.path 0 (handle env s now req)
    | some tenant =>
      match admission with
      | .rateLimited n =>
        (s.logSecurityEvent now "rate_limited" (some tenant.orgId) [("n",.float n)],
          .error { status := 429, detail := "rate limit exceeded" })
      | .concurrencyLimit reason =>
        (s.logSecurityEvent now "quota_exceeded" (some tenant.orgId) [("reason",.str reason)],
          .error { status := 429, detail := "concurrency limit" })
      | .admitted latencyMs =>
        answered s now (some tenant.orgId) req.path latencyMs (handle env s now req)

end GatewayState

/-- A call: a request, or a function of the server that changes what the gateway reads. -/
inductive GatewayCall where
  | bootstrapOrg (now : ℚ) (draws : Draws) (req : BootstrapRequest)
  | session (now : ℚ) (req : SessionRequest)
  | serve (now : ℚ) (admission : Admission) (req : OrgRequest)
  | createOrganization (orgId name slug : String)
  | updateOrgPlan (orgId plan : String)
  | setCustomLimits (orgId : String) (limits : List (String × ℚ))
  | createUser (userId salt email displayName password : String)
  | addUserToOrg (userId orgId : String) (role : Role)
  | createOrgApiToken (now : ℚ) (tokenId secret orgId name : String)
  | revokeOrgApiToken (tokenId : String)
  | rotateOrgApiToken (now : ℚ) (newTokenId secret tokenId : String)
  | issueUserJwt (now : ℚ) (userId orgId role : String) (ttlSec : Option ℤ)
  | issueApiKeyJwt (now : ℚ) (orgId tokenId : String) (ttlSec : Option ℤ)
  | record (orgId : String) (row : UsageRow)
  | appendAudit (row : AuditRow)

def GatewayState.exec (env : GatewayEnv) (s : GatewayState) : GatewayCall → GatewayState
  | .bootstrapOrg now draws req => (s.bootstrapOrg env now draws req).1
  | .session now req => (s.session env now req).1
  | .serve now admission req => (s.serve env now admission req).1
  | .createOrganization orgId name slug =>
    { s with registry := (s.registry.createOrganization env.platform orgId name slug).1 }
  | .updateOrgPlan orgId plan => { s with registry := (s.registry.updateOrgPlan orgId plan).1 }
  | .setCustomLimits orgId limits =>
    { s with limits := s.limits.put { orgId := orgId, limits := limits } }
  | .createUser userId salt email displayName password =>
    { s with registry :=
      (s.registry.createUser env.platform userId salt email displayName password).1 }
  | .addUserToOrg userId orgId role =>
    { s with registry := (s.registry.addUserToOrg userId orgId role).getD s.registry }
  | .createOrgApiToken now tokenId secret orgId name =>
    ((s.createOrgApiToken env now tokenId secret orgId name).map Prod.fst).getD s
  | .revokeOrgApiToken tokenId => (s.revokeOrgApiToken tokenId).1
  | .rotateOrgApiToken now newTokenId secret tokenId =>
    (s.rotateOrgApiToken env now newTokenId secret tokenId).1
  | .issueUserJwt now userId orgId role ttlSec =>
    ((s.issueUserJwt env now userId orgId role ttlSec).map Prod.fst).getD s
  | .issueApiKeyJwt now orgId tokenId ttlSec =>
    ((s.issueApiKeyJwt env now orgId tokenId ttlSec).map Prod.fst).getD s
  | .record orgId row => s.record orgId row
  | .appendAudit row => s.appendAudit row

end Arsonist.Gateway
