import Arsonist.Federation.FederationSecurity

/-! `mesh/mesh_protocol.py`: the state that clusters gossip about, and the signatures of mesh
messages. Also `verify_incoming_gossip` of `mesh/gossip.py`. -/
namespace Arsonist.Mesh
open Arsonist.Library Arsonist.Federation

abbrev ClusterId := String

/-- A cluster as it describes itself over gossip. -/
structure ClusterGossipState where
  clusterId : ClusterId
  publicUrl : String
  region : String := "default"
  gpuCapacity : ℤ := 0
  load : ℚ := 0
  health : String := "healthy"
  queueDepth : ℤ := 0
  latencyMs : ℚ := 0
  heartbeatTs : ℚ := 0
  version : ℤ := 0
  reliabilityScore : ℚ := 1
  hopDistance : ℤ := 0
  deriving DecidableEq

structure GossipEnvelope where
  sender : ClusterGossipState
  peers : List ClusterGossipState := []
  traceId : String := ""
  nonce : String := ""

variable (mac : IdealMac) (env : SecretEnv)

/-- `_mesh_secret`: blanks around either secret do not count. -/
def meshSecret : String :=
  let own := Text.strip (env.meshHmacSecret.getD "")
  if own = "" then Text.strip (secret env) else own

/-- `_max_ts_skew_sec` of the mesh. -/
def maxMeshSkewSec : ℤ := env.meshSkewSec.getD (env.federationSkewSec.getD 300)

def signMeshPayload (payload : Json.Object) : String :=
  mac.hexdigest (meshSecret env) (Json.dumps (.obj payload))

def verifyMeshPayload (payload : Json.Object) (signature : Option String) : Option Bool :=
  if meshSecret env = "" then some true
  else checkSignature (signMeshPayload mac env payload) signature

def verifyMeshTimestamp (now : ℚ) (header : Option String) : Bool :=
  if meshSecret env = "" then true
  else timestampWithin (maxMeshSkewSec env) now header

/-- `mesh_auth_headers`: the signature and the timestamp. -/
def meshAuthHeaders (now : ℚ) (payload : Json.Object) : String × String :=
  (signMeshPayload mac env payload,(Text.truncate now).repr)

def verifyIncomingGossip (now : ℚ) (body : Json.Object) (sig ts : Option String) :
    Option Bool :=
  if verifyMeshTimestamp env now ts then verifyMeshPayload mac env body sig else some false

end Arsonist.Mesh
