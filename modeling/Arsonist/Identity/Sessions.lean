import Arsonist.Identity.Registry
import Arsonist.Library.JsonText

/-! The JWTs of users and of API keys. An API-key JWT names the token that it stands for. -/
namespace Arsonist.Identity
open Arsonist.Library

/-- The `jwt` package: `encode claims secret`, and `decode now token secret`, which gives the claims
of a token whose signature and dates are in order. -/
structure Jwt where
  encode : Json.Object → String → String
  decode : ℚ → String → String → Option Json.Object

/-- The package, the secret and the lifetimes that sessions are made with. -/
structure SessionEnv where
  platform : Platform
  jwt : Jwt
  jwtSecret : String
  jwtTtlSec : ℤ := 3600
  apiJwtTtlSec : ℤ := 86400

/-- The dates of a claim set are in order: issued, and not expired. -/
def Alive (now : ℚ) (claims : Json.Object) : Prop :=
  match claims.lookup "iat", claims.lookup "exp" with
  | some (.int iat), some (.int exp) => (iat : ℚ) ≤ now ∧ now < exp
  | _, _ => False

instance (now : ℚ) (claims : Json.Object) : Decidable (Alive now claims) := by
  unfold Alive
  split <;> infer_instance

/-- Ideal signing: what was signed with the secret is read back as long as its dates are in order.
A token is one word, and does not look like an API key. -/
structure SessionEnv.Ideal (env : SessionEnv) : Prop where
  decode_encode : ∀ now claims secret, Json.wellFormed (.obj claims) →
    env.jwt.decode now (env.jwt.encode claims secret) secret =
      if Alive now claims then some claims else none
  strip_encode : ∀ claims secret,
    env.platform.strip (env.jwt.encode claims secret) = env.jwt.encode claims secret
  isSecret_encode : ∀ claims secret, Registry.isSecret (env.jwt.encode claims secret) = false

inductive Scope where
  | user
  | apiKey
  deriving DecidableEq

/-- `USER_SCOPE` and `API_KEY_SCOPE`. -/
def Scope.value : Scope → String
  | user => "arsonist-user"
  | apiKey => "arsonist-api-key"

def userClaims (iat ttl : ℤ) (userId orgId role : String) : Json.Object :=
  [("sub",.str userId),("org_id",.str orgId),("role",.str role),("iat",.int iat),
    ("exp",.int (iat+ttl)),("scope",.str Scope.user.value)]

def apiKeyClaims (iat ttl : ℤ) (orgId tokenId : String) : Json.Object :=
  [("sub",.str tokenId),("org_id",.str orgId),("iat",.int iat),("exp",.int (iat+ttl)),
    ("scope",.str Scope.apiKey.value)]

/-- A token and the claims that it was signed for. -/
abbrev Issued := String × Json.Object

namespace SessionEnv
variable (env : SessionEnv)

/-- Without a secret nothing can be signed: `_secret` raises. -/
def issue (claims : Json.Object) : Option Issued :=
  if env.jwtSecret = "" then none else some (env.jwt.encode claims env.jwtSecret,claims)

def issueUserJwt (now : ℚ) (userId orgId role : String) (ttlSec : Option ℤ) : Option Issued :=
  env.issue (userClaims (Text.truncate now) (ttlSec.getD env.jwtTtlSec) userId orgId role)

def issueApiKeyJwt (now : ℚ) (orgId tokenId : String) (ttlSec : Option ℤ) : Option Issued :=
  env.issue (apiKeyClaims (Text.truncate now) (ttlSec.getD env.apiJwtTtlSec) orgId tokenId)

end SessionEnv

/-- What `decode_v12_subject` reads from a token. -/
structure Subject where
  scope : Scope
  orgId : String
  sub : String
  role : Option Json

/-- The subject of a claim set, if it is one of the gateway's. -/
def subjectOf (claims : Json.Object) : Option Subject :=
  match claims.lookup "scope", claims.lookup "org_id", claims.lookup "sub" with
  | some (.str scope), some (.str orgId), some (.str sub) =>
    if scope = Scope.user.value then
      some { scope := .user, orgId := orgId, sub := sub, role := claims.lookup "role" }
    else if scope = Scope.apiKey.value then
      some { scope := .apiKey, orgId := orgId, sub := sub, role := none }
    else none
  | _, _, _ => none

/-- `decode_v12_subject`. Without a secret it raises. -/
def SessionEnv.decodeV12Subject (env : SessionEnv) (now : ℚ) (token : String) :
    Option (Option Subject) :=
  if env.jwtSecret = "" then none
  else some ((env.jwt.decode now token env.jwtSecret).bind subjectOf)

theorem subjectOf_apiKeyClaims (iat ttl : ℤ) (orgId tokenId : String) :
    subjectOf (apiKeyClaims iat ttl orgId tokenId) =
      some { scope := .apiKey, orgId := orgId, sub := tokenId, role := none } := rfl

section Clear

/-- Signing in clear: a token shows its claims and the secret. -/
def Jwt.clear : Jwt where
  encode claims secret := Json.encodeCompact (.arr [.obj claims,.str secret])
  decode now token secret :=
    match Json.decode token with
    | some (.arr [.obj claims,.str signedWith]) =>
      if signedWith = secret ∧ Alive now claims then some claims else none
    | _ => none

/-- Text as it is for ASCII characters, and the text itself as its hash. -/
def Platform.clear : Platform where
  lower := Text.lower
  strip := Text.strip
  sha256 := id

def SessionEnv.clear (jwtSecret : String) : SessionEnv :=
  { platform := .clear, jwt := .clear, jwtSecret := jwtSecret }

theorem toList_clear (claims : Json.Object) (secret : String) :
    (Jwt.clear.encode claims secret).toList =
      '[' :: (Json.writeItems [] [.obj claims,.str secret] ++ [']']) := by
  change (String.ofList _).toList = _
  rw [String.toList_ofList, Json.write]

theorem stripped_brackets (l : List Char) :
    Text.stripped ('[' :: (l ++ [']'])) = '[' :: (l ++ [']']) := by
  have hopen : Char.isWhitespace '[' = false := by decide
  have hclose : Char.isWhitespace ']' = false := by decide
  simp [Text.stripped, hopen, hclose]

theorem ideal_clear (jwtSecret : String) : (SessionEnv.clear jwtSecret).Ideal := by
  refine ⟨?_,?_,?_⟩
  · intro now claims secret hwell
    have hdecode : Json.decode (Json.encodeCompact (.arr [.obj claims,.str secret])) =
        some (.arr [.obj claims,.str secret]) := by
      refine Json.decode_encodeCompact ?_
      simpa [Json.wellFormed, Json.itemsWellFormed] using hwell
    change (match Json.decode (Json.encodeCompact (.arr [.obj claims,.str secret])) with
      | some (.arr [.obj claims,.str signedWith]) =>
        if signedWith = secret ∧ Alive now claims then some claims else none
      | _ => none) = _
    rw [hdecode]
    simp
  · intro claims secret
    change Text.strip (Jwt.clear.encode claims secret) = Jwt.clear.encode claims secret
    rw [Text.strip, toList_clear, stripped_brackets, ← toList_clear, String.ofList_toList]
  · intro claims secret
    change Registry.isSecret (Jwt.clear.encode claims secret) = false
    rw [Registry.isSecret, toList_clear]
    rfl

end Clear

end Arsonist.Identity
