import Arsonist.Identity.Sessions

/-! Who is calling: the resolution of a bearer credential by the gateway (`authenticate_bearer`),
and the check that it is one of the organisation in the path (`_require_org_caller`). -/
namespace Arsonist.Gateway
open Arsonist.Library Arsonist.Identity

/-- The environment of the gateway: what sessions are made with, the bootstrap token and the
static inference tokens. -/
structure GatewayEnv extends SessionEnv where
  bootstrapToken : String := ""
  allowLegacy : Bool := true
  legacyTokens : List String := []

structure HttpError where
  status : ℕ
  detail : String
  deriving DecidableEq

/-- The answer to an exception that no handler expects. -/
def serverError : HttpError := { status := 500, detail := "Internal Server Error" }

abbrev Reply (α : Type) := Except HttpError α

inductive AuthKind where
  | jwt
  | apiKey
  deriving DecidableEq

/-- A tenant; its role is the value of the claim, before it is turned into text. -/
structure TenantContext where
  orgId : String
  userId : Option String := none
  tokenId : Option String := none
  role : Option Json := none
  authKind : AuthKind := .jwt

structure AuthResult where
  tenant : Option TenantContext
  legacyInferenceOk : Bool

/-- The credential in an authorization header. -/
def bearer (platform : Platform) (authorization : Option String) : Reply String :=
  match authorization with
  | none => .error { status := 401, detail := "missing bearer token" }
  | some text =>
    if "Bearer ".toList.isPrefixOf text.toList = false then
      .error { status := 401, detail := "missing bearer token" }
    else .ok (platform.strip (String.ofList (text.toList.drop 7)))

section Authenticate
variable (env : GatewayEnv) (r : Registry) (now : ℚ)

/-- `authenticate_bearer`, once the credential is read from the header. -/
def authenticate (raw : String) : Reply AuthResult :=
  if Registry.isSecret raw then
    match r.verifyOrgApiSecret env.platform raw with
    | none => .error { status := 403, detail := "invalid api key" }
    | some rec =>
      .ok {
        tenant := some { orgId := rec.orgId, tokenId := some rec.tokenId, authKind := .apiKey },
        legacyInferenceOk := false }
  else
    match env.decodeV12Subject now raw with
    | none => .error serverError
    | some (some subject) =>
      match subject.scope with
      | .apiKey =>
        .ok {
          tenant := some {
            orgId := subject.orgId, tokenId := some subject.sub, authKind := .jwt },
          legacyInferenceOk := false }
      | .user =>
        .ok {
          tenant := some {
            orgId := subject.orgId,
            userId := some subject.sub,
            role := some ((subject.role.filter fun role => role.truthy).getD (.str "viewer")),
            authKind := .jwt },
          legacyInferenceOk := false }
    | some none =>
      if env.allowLegacy ∧ raw ∈ env.legacyTokens then
        .ok { tenant := none, legacyInferenceOk := true }
      else .error { status := 403, detail := "v12 requires org JWT or sk_ API key" }

def authenticateBearer (authorization : Option String) : Reply AuthResult :=
  (bearer env.platform authorization).bind (authenticate env r now)

inductive CallerKind where
  | user
  | apiKey
  deriving DecidableEq

structure Caller where
  kind : CallerKind
  orgId : String
  sub : String
  deriving DecidableEq

/-- `_require_org_caller`, once the credential is read from the header. -/
def orgCaller (orgId raw : String) : Reply Caller :=
  if Registry.isSecret raw then
    match r.verifyOrgApiSecret env.platform raw with
    | none => .error { status := 403, detail := "invalid org api key" }
    | some rec =>
      if rec.orgId ≠ orgId then .error { status := 403, detail := "invalid org api key" }
      else .ok { kind := .apiKey, orgId := orgId, sub := rec.tokenId }
  else
    match env.decodeV12Subject now raw with
    | none => .error serverError
    | some none => .error { status := 403, detail := "org scope mismatch" }
    | some (some subject) =>
      if subject.orgId ≠ orgId then .error { status := 403, detail := "org scope mismatch" }
      else
        match subject.scope with
        | .user => .ok { kind := .user, orgId := subject.orgId, sub := subject.sub }
        | .apiKey => .ok { kind := .apiKey, orgId := orgId, sub := subject.sub }

def requireOrgCaller (authorization : Option String) (orgId : String) : Reply Caller :=
  (bearer env.platform authorization).bind (orgCaller env r now orgId)

def requireUserForOrg (authorization : Option String) (orgId : String) : Reply Caller :=
  (requireOrgCaller env r now authorization orgId).bind fun caller =>
    if caller.kind ≠ .user then .error { status := 403, detail := "user session required" }
    else .ok caller

/-- The role check of a handler: the role that is stored for the user now. -/
def requirePermission (permission : Permission) (detail : String) (authorization : Option String)
    (orgId : String) : Reply Caller :=
  (requireUserForOrg env r now authorization orgId).bind fun caller =>
    match if caller.sub ≠ "" then r.membership caller.sub orgId else none with
    | none => .error { status := 403, detail := detail }
    | some role =>
      if hasPermission role permission = false then .error { status := 403, detail := detail }
      else .ok caller

end Authenticate
end Arsonist.Gateway
