import Arsonist.Library.CanonicalJson
import Arsonist.Library.Mac
import Arsonist.Library.Text

/-! `federation/federation_security.py`: signatures of requests between clusters. A
verification that ends in an exception gives `none`. -/
namespace Arsonist.Federation
open Arsonist.Library

/-- The environment variables with secrets, and those with the allowed clock skew. -/
structure SecretEnv where
  arsonistFederationSecret : Option String := none
  federationSharedSecret : Option String := none
  meshHmacSecret : Option String := none
  federationSkewSec : Option ℤ := none
  meshSkewSec : Option ℤ := none

variable (mac : IdealMac) (env : SecretEnv)

/-- `_secret`: a variable that is set counts, even when it is empty. -/
def secret : String := env.arsonistFederationSecret.getD (env.federationSharedSecret.getD "")

/-- `_max_ts_skew_sec`. -/
def maxTsSkewSec : ℤ := env.federationSkewSec.getD 300

def signPayload (payload : Json.Object) : String :=
  mac.hexdigest (secret env) (Json.dumps (.obj payload))

/-- A signature that is present is compared with the expected one. -/
def checkSignature (expected : String) (signature : Option String) : Option Bool :=
  match signature with
  | none => some false
  | some sig => if sig = "" then some false else IdealMac.compareDigest expected sig

def verifyPayload (payload : Json.Object) (signature : Option String) : Option Bool :=
  if secret env = "" then some true
  else checkSignature (signPayload mac env payload) signature

/-- A timestamp header that is present, readable and at most `skew` seconds off. -/
def timestampWithin (skew : ℤ) (now : ℚ) (header : Option String) : Bool :=
  match header with
  | none => false
  | some text =>
    if text = "" then false
    else
      match Text.parseInt text with
      | none => false
      | some ts => |Text.truncate now - ts| ≤ skew

def verifyTimestampHeader (now : ℚ) (header : Option String) : Bool :=
  timestampWithin (maxTsSkewSec env) now header

def verifySignedClusterRequest (now : ℚ) (payload : Json.Object)
    (signature header : Option String) : Option Bool :=
  if secret env = "" then some true
  else if verifyTimestampHeader env now header then verifyPayload mac env payload signature
  else some false

/-- `build_headers`: the signature and the timestamp. -/
def buildHeaders (now : ℚ) (payload : Json.Object) : String × String :=
  (signPayload mac env payload,(Text.truncate now).repr)

theorem checkSignature_iff (k m : String) (signature : Option String) :
    checkSignature (mac.hexdigest k m) signature = some true ↔
      signature = some (mac.hexdigest k m) := by
  cases signature with
  | none => simp [checkSignature]
  | some sig =>
    constructor
    · intro h
      dsimp only [checkSignature] at h
      split_ifs at h with hempty
      · simp at h
      · rw [mac.compareDigest_hexdigest h]
    · intro h
      rw [Option.some.inj h]
      dsimp only [checkSignature]
      rw [if_neg (mac.nonempty _ _)]
      exact mac.compareDigest_self _ _

/-- The current time is a fresh timestamp, unless the allowed skew is negative. -/
theorem timestampWithin_now {skew : ℤ} (h : 0 ≤ skew) (now : ℚ) :
    timestampWithin skew now (some (Text.truncate now).repr) = true := by
  have hne : (Text.truncate now).repr ≠ "" := by
    intro he
    have hparse := Text.parseInt_repr (Text.truncate now)
    rw [he] at hparse
    simp [Text.parseInt, Text.stripped, Text.readInt] at hparse
  simp [timestampWithin, hne, Text.parseInt_repr, h]

/-- A negative skew accepts no timestamp. -/
theorem not_timestampWithin {skew : ℤ} (h : skew < 0) (now : ℚ) (ts : Option String) :
    timestampWithin skew now ts = false := by
  have habs : ∀ n : ℤ, ¬ |Text.truncate now - n| ≤ skew := fun n hn => by
    have := abs_nonneg (Text.truncate now - n)
    omega
  unfold timestampWithin
  cases ts with
  | none => rfl
  | some text =>
    dsimp only
    split_ifs
    · rfl
    · cases Text.parseInt text with
      | none => rfl
      | some n => simpa using habs n

end Arsonist.Federation
