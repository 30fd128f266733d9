import Arsonist.Library.Keyed
import Arsonist.Library.Text

/-! The identity registry: organisations, users, memberships and API tokens. What `uuid` and
`secrets` draw (ids, salts, token secrets) is passed in. -/
namespace Arsonist.Identity
open Arsonist.Library

/-- What the Python library provides: methods of `str`, and the hash function. -/
structure Platform where
  lower : String → String
  strip : String → String
  sha256 : String → String

inductive Role where
  | admin
  | dev
  | billing
  | viewer
  deriving DecidableEq

def Role.value : Role → String
  | admin => "admin"
  | dev => "dev"
  | billing => "billing"
  | viewer => "viewer"

inductive Permission where
  | inferenceCall
  | orgManage
  | userManage
  | billingRead
  | billingManage
  | apiKeyRotate
  | deployRead
  | deployManage
  | auditRead
  deriving DecidableEq

def permissionsFor : Role → List Permission
  | .admin => [.inferenceCall,.orgManage,.userManage,.billingRead,.billingManage,.apiKeyRotate,
      .deployRead,.deployManage,.auditRead]
  | .dev => [.inferenceCall,.deployRead,.deployManage]
  | .billing => [.billingRead,.billingManage,.inferenceCall]
  | .viewer => [.deployRead,.billingRead]

def hasPermission (role : Role) (permission : Permission) : Bool :=
  permission ∈ permissionsFor role

structure Organization where
  orgId : String
  name : String
  slug : String
  plan : String := "free"
  deriving DecidableEq

instance : Keyed Organization String where
  key := Organization.orgId

structure User where
  userId : String
  email : String
  displayName : String := ""
  passwordHash : String := ""
  deriving DecidableEq

instance : Keyed User String where
  key := User.userId

structure Membership where
  userId : String
  role : Role
  deriving DecidableEq

/-- The entry of `memberships` for an organisation. -/
structure OrgMembers where
  orgId : String
  rows : List Membership := []
  deriving DecidableEq

instance : Keyed OrgMembers String where
  key := OrgMembers.orgId

structure ApiToken where
  tokenId : String
  orgId : String
  name : String
  hash : String
  tokenPrefix : String
  createdAt : ℚ
  revoked : Bool := false
  deriving DecidableEq

instance : Keyed ApiToken String where
  key := ApiToken.tokenId

/-- The entry of `token_hash_index` for a digest. -/
structure HashEntry where
  digest : String
  tokenId : String
  deriving DecidableEq

instance : Keyed HashEntry String where
  key := HashEntry.digest

structure Registry where
  orgs : Table Organization := Table.empty
  users : Table User := Table.empty
  memberships : Table OrgMembers := Table.empty
  apiTokens : Table ApiToken := Table.empty
  tokenHashIndex : Table HashEntry := Table.empty

namespace Registry
variable (platform : Platform) (r : Registry)

section Organizations

/-- `slug.lower().replace(" ", "-")`. -/
def slugOf (slug : String) : String :=
  String.ofList ((platform.lower slug).toList.map fun c => if c = ' ' then '-' else c)

def createOrganization (orgId name slug : String) : Registry × Organization :=
  let org : Organization := { orgId := orgId, name := name, slug := slugOf platform slug }
  ({ r with orgs := r.orgs.put org,
            memberships := if (r.memberships.get? orgId).isSome then r.memberships
              else r.memberships.put { orgId := orgId } },org)

def getOrganization (orgId : String) : Option Organization := r.orgs.get? orgId

def updateOrgPlan (orgId plan : String) : Registry × Option Organization :=
  match r.orgs.get? orgId with
  | none => (r,none)
  | some org =>
    ({ r with orgs := r.orgs.put { org with plan := plan } },some { org with plan := plan })

end Organizations

section Users

/-- `email.lower().strip()`. -/
def normalized (email : String) : String := platform.strip (platform.lower email)

def hashPassword (salt password : String) : String :=
  salt ++ "$" ++ platform.sha256 (salt ++ password)

/-- `password_hash.split("$", 1)`, for a hash in which there is a dollar sign. -/
def splitHash (passwordHash : String) : String × String :=
  (String.ofList (passwordHash.toList.takeWhile (· ≠ '$')),
    String.ofList ((passwordHash.toList.dropWhile (· ≠ '$')).drop 1))

def verifyPassword (user : User) (password : String) : Bool :=
  '$' ∈ user.passwordHash.toList ∧
    platform.sha256 ((splitHash user.passwordHash).1 ++ password) = (splitHash user.passwordHash).2

def createUser (userId salt email displayName password : String) : Registry × User :=
  let u : User := {
    userId := userId,
    email := normalized platform email,
    displayName := displayName,
    passwordHash := hashPassword platform salt password }
  ({ r with users := r.users.put u },u)

def getUserByEmail (email : String) : Option User :=
  r.users.entries.find? fun u => u.email = normalized platform email

/-- The rows of an organisation with the role of a user set: changed in place, or added. -/
def withRole (userId : String) (role : Role) : List Membership → List Membership
  | [] => [{ userId := userId, role := role }]
  | row :: rows =>
    if row.userId = userId then { row with role := role } :: rows
    else row :: withRole userId role rows

def members (orgId : String) : List Membership :=
  (r.memberships.get? orgId).elim [] OrgMembers.rows

/-- `add_user_to_org`. An unknown user or organisation raises. -/
def addUserToOrg (userId orgId : String) (role : Role) : Option Registry :=
  if (r.users.get? userId).isSome ∧ (r.orgs.get? orgId).isSome then
    some { r with memberships :=
      r.memberships.put { orgId := orgId, rows := withRole userId role (r.members orgId) } }
  else none

def membership (userId orgId : String) : Option Role :=
  ((r.members orgId).find? fun row => row.userId = userId).map Membership.role

end Users

section ApiTokens

/-- What a new token's owner is shown. -/
structure NewToken where
  tokenId : String
  secret : String
  tokenPrefix : String
  deriving DecidableEq

/-- `create_org_api_token`. An unknown organisation raises. -/
def createOrgApiToken (now : ℚ) (tokenId secret orgId name : String) :
    Option (Registry × NewToken) :=
  if (r.orgs.get? orgId).isSome then
    let shown := String.ofList (secret.toList.take 12)
    let digest := platform.sha256 secret
    some ({ r with
      apiTokens := r.apiTokens.put {
        tokenId := tokenId,
        orgId := orgId,
        name := name,
        hash := digest,
        tokenPrefix := shown,
        createdAt := now },
      tokenHashIndex := r.tokenHashIndex.put { digest := digest, tokenId := tokenId } },
      { tokenId := tokenId, secret := secret, tokenPrefix := shown })
  else none

/-- `s.startswith("sk_")`. -/
def isSecret (s : String) : Bool := "sk_".toList.isPrefixOf s.toList

/-- `verify_org_api_secret`: the token of the secret. -/
def verifyOrgApiSecret (secret : String) : Option ApiToken :=
  if isSecret secret = false then none
  else
    match r.tokenHashIndex.get? (platform.sha256 secret) with
    | none => none
    | some entry =>
      if entry.tokenId = "" then none
      else (r.apiTokens.get? entry.tokenId).filter fun rec => !rec.revoked

def revokeOrgApiToken (tokenId : String) : Registry × Bool :=
  match r.apiTokens.get? tokenId with
  | none => (r,false)
  | some rec =>
    ({ r with apiTokens := r.apiTokens.put { rec with revoked := true },
              tokenHashIndex := r.tokenHashIndex.erase rec.hash },true)

def revokeOrgApiTokenForOrg (orgId tokenId : String) : Registry × Bool :=
  match r.apiTokens.get? tokenId with
  | none => (r,false)
  | some rec => if rec.orgId ≠ orgId then (r,false) else r.revokeOrgApiToken tokenId

/-- `rotate_org_api_token`: the token `tokenId` is revoked, and a new one made. A token that is
unknown or revoked raises, and so does the new token of an unknown organisation, when the old one is
revoked already. -/
def rotateOrgApiToken (now : ℚ) (newTokenId secret tokenId : String) :
    Registry × Option NewToken :=
  match (r.apiTokens.get? tokenId).filter fun rec => !rec.revoked with
  | none => (r,none)
  | some rec =>
    match (r.revokeOrgApiToken tokenId).1.createOrgApiToken platform now newTokenId secret rec.orgId
      rec.name with
    | none => ((r.revokeOrgApiToken tokenId).1,none)
    | some (r,new) => (r,some new)

/-- What a list of tokens shows of a token. -/
structure TokenView where
  tokenId : String
  name : String
  tokenPrefix : String
  createdAt : ℚ
  revoked : Bool
  deriving DecidableEq

def viewOf (rec : ApiToken) : TokenView :=
  { tokenId := rec.tokenId,
    name := rec.name,
    tokenPrefix := rec.tokenPrefix,
    createdAt := rec.createdAt,
    revoked := rec.revoked }

def listOrgTokens (orgId : String) : List TokenView :=
  (r.apiTokens.entries.filter fun rec => rec.orgId = orgId).map viewOf

end ApiTokens
end Registry
end Arsonist.Identity
