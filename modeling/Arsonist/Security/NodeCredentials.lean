import Arsonist.Library.CanonicalJson
import Arsonist.Library.Mac
import Arsonist.Library.Text

/-! The credentials of a node: request signatures (`security/hmac_auth.py`) and node tokens
(`security/jwt_auth.py`). Signatures of job payloads (`security/job_payload.py`), made and checked
with the job signing key. -/
namespace Arsonist.Security
open Arsonist.Library

/-- The hash function, the MAC, and the decoder of tokens: `jwtDecode token secret` gives the
claims of a token whose signature and dates are in order. -/
structure Crypto where
  sha256 : String → String
  mac : IdealMac
  jwtDecode : String → String → Option Json.Object

variable (crypto : Crypto)

/-- The message that a node signs. -/
def requestMessage (nodeId : String) (ts : ℤ) (method path : String) (payload : Json.Object) :
    String :=
  nodeId ++ ":" ++ ts.repr ++ ":" ++ Text.upper method ++ ":" ++ path ++ ":"
    ++ crypto.sha256 (Json.dumps (.obj payload))

def signRequest (nodeId nodeSecret : String) (ts : ℤ) (method path : String)
    (payload : Json.Object) : String :=
  crypto.mac.hexdigest nodeSecret (requestMessage crypto nodeId ts method path payload)

/-- `max_skew_sec`. -/
def maxSkewSec : ℤ := 60

/-- `verify_headers`. The comparison raises for a signature outside of ASCII. -/
def verifyHeaders (now : ℚ) (nodeSecret nodeId method path : String) (payload : Json.Object)
    (ts signature : Option String) : Option Bool :=
  match ts.filter (· ≠ ""), signature.filter (· ≠ "") with
  | some ts, some sig =>
    match Text.parseInt ts with
    | none => some false
    | some t =>
      if |Text.truncate now - t| > maxSkewSec then some false
      else IdealMac.compareDigest (signRequest crypto nodeId nodeSecret t method path payload) sig
  | _, _ => some false

/-- `verify_node_token`. -/
def verifyNodeToken (secret token : String) : Option String :=
  if secret = "" then none
  else
    match crypto.jwtDecode token secret with
    | none => none
    | some claims =>
      match claims.lookup "sub", claims.lookup "scope" with
      | some (.str sub), some (.str scope) => if scope = "arsonist-node" then some sub else none
      | _, _ => none

/-- A request is signed: its headers carry a time close to now, and the code of the request
at that time under the node's secret. -/
def Signed (now : ℚ) (nodeSecret nodeId method path : String) (payload : Json.Object)
    (ts signature : Option String) : Prop :=
  ∃ text t, ts = some text ∧ Text.parseInt text = some t ∧ |Text.truncate now - t| ≤ maxSkewSec ∧
    signature = some (signRequest crypto nodeId nodeSecret t method path payload)

theorem verifyHeaders_iff (now : ℚ) (nodeSecret nodeId method path : String)
    (payload : Json.Object) (ts signature : Option String) :
    verifyHeaders crypto now nodeSecret nodeId method path payload ts signature = some true ↔
      Signed crypto now nodeSecret nodeId method path payload ts signature := by
  unfold verifyHeaders
  constructor
  · intro h
    cases hts : ts.filter (· ≠ "") with
    | none => rw [hts] at h; simp at h
    | some text =>
      cases hsig : signature.filter (· ≠ "") with
      | none => rw [hts, hsig] at h; simp at h
      | some sig =>
        rw [hts, hsig] at h
        dsimp only at h
        cases hparse : Text.parseInt text with
        | none => rw [hparse] at h; simp at h
        | some t =>
          rw [hparse] at h
          dsimp only at h
          split_ifs at h with hlate
          · simp at h
          · refine ⟨text,t,(Option.filter_eq_some_iff.mp hts).1,hparse,by omega,?_⟩
            rw [(Option.filter_eq_some_iff.mp hsig).1, signRequest]
            rw [crypto.mac.compareDigest_hexdigest h]
  · rintro ⟨text,t,rfl,hparse,hfresh,rfl⟩
    have htext : text ≠ "" := by
      rintro rfl
      simp [Text.parseInt, Text.stripped, Text.readInt] at hparse
    have hsig := crypto.mac.nonempty nodeSecret (requestMessage crypto nodeId t method path payload)
    rw [Option.filter_some_pos (by simpa using htext), signRequest,
      Option.filter_some_pos (by simpa using hsig)]
    dsimp only
    rw [hparse]
    dsimp only
    rw [if_neg (by omega)]
    exact crypto.mac.compareDigest_self _ _

/-- `job.get(name)`. -/
def jobField (job : Json.Object) (name : String) : Json := (job.lookup name).getD .null

/-- The fields of a job that are signed. -/
def signedFields : List String := ["id","type","task","required_nodes","power","gpu_required"]

/-- `canonical_job_bytes`, as text. -/
def canonicalJobText (job : Json.Object) : String :=
  Json.dumps (.obj (signedFields.map fun name => (name,jobField job name)))

variable (mac : IdealMac) (key : String)

/-- `sign_job_payload`: without a key, no signature. -/
def signJobPayload (job : Json.Object) : String :=
  if key = "" then "" else mac.hexdigest key (canonicalJobText job)

/-- `verify_job_payload`. The comparison raises for a signature that is not ASCII text. -/
def verifyJobPayload (job : Json.Object) (signature : Json) : Option Bool :=
  if key = "" then some true
  else if signature.truthy = false then some false
  else
    match signature with
    | .str text => IdealMac.compareDigest (signJobPayload mac key job) text
    | _ => none

end Arsonist.Security
