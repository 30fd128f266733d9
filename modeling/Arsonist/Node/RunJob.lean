import Arsonist.Library.CanonicalOrder
import Arsonist.Library.JsonText
import Arsonist.Library.Mac
import Arsonist.Security.NodeCredentials
import Arsonist.Shared.Models

/-! The route of a node agent on which jobs are run. -/
namespace Arsonist.Node
open Arsonist.Library Arsonist.Security

/-- A request, with the headers that are read. -/
structure RunRequest where
  method : String
  path : String
  nodeId : Option String := none
  authTs : Option String := none
  authSig : Option String := none
  body : String

/-- The entries of `STATE` that identify a node. -/
structure AgentState where
  nodeId : String
  nodeSecret : String

/-- An answer. A job that is accepted is executed with the given payload. -/
inductive AgentReply
  | notRouted
  | unprocessable
  | forbidden (detail : String)
  | raised
  | accepted (payload : Json.Object)

/-- The member of a payload that carries its signature. -/
def payloadSig : String := "arsonist_payload_sig"

/-- `payload.pop(name, None)`. -/
def popMember (payload : Json.Object) (name : String) : Json.Object × Json :=
  (payload.filter fun m => m.1 ≠ name,jobField payload name)

section
variable (crypto : Crypto) (key : String) (state : AgentState) (now : ℚ) (req : RunRequest)

/-- The check of the payload, once the headers are in order. -/
def acceptPayload (payload : Json.Object) : AgentReply :=
  let (payload,sig) := popMember payload payloadSig
  match verifyJobPayload crypto.mac key payload sig with
  | none => .raised
  | some false => .forbidden "invalid job payload signature"
  | some true => .accepted payload

/-- `run_job`. -/
def runJob (payload : Json.Object) : AgentReply :=
  if req.nodeId ≠ some state.nodeId then .forbidden "invalid node identity"
  else if state.nodeSecret = "" then acceptPayload crypto key payload
  else
    match verifyHeaders crypto now state.nodeSecret state.nodeId req.method req.path payload
        req.authTs req.authSig with
    | none => .raised
    | some false => .forbidden "invalid signature"
    | some true => acceptPayload crypto key payload

/-- A request that comes in: only `POST /run_job` leads to `run_job`, with an object as its body. -/
def handle : AgentReply :=
  if req.method ≠ "POST" ∨ req.path ≠ "/run_job" then .notRouted
  else
    match (Json.decode req.body).bind Json.asObject with
    | none => .unprocessable
    | some payload => runJob crypto key state now req payload

end
end Arsonist.Node

/-! Jobs on their way from the control plane to a node. A dispatched job is accepted by its node,
and what its node accepts under a dispatch signature was dispatched to it. -/
namespace Arsonist.Node
open Arsonist.Library Arsonist.Security Arsonist.Shared

/-- A call of `dispatch_job`. The fields of the job are JSON values. -/
structure Dispatch where
  nodeId : String
  nodeSecret : Option String
  job : JobRecord
  sentAt : ℚ
  json : Json.wellFormed (.obj job.modelDump) = true

namespace Dispatch
variable (crypto : Crypto) (key : String) (d : Dispatch)

/-- The code in the payload, if there is a key to make it with. -/
def signature : String := signJobPayload crypto.mac key d.job.modelDump

/-- The body that is sent. -/
def body : Json.Object :=
  if d.signature crypto key = "" then d.job.modelDump
  else Json.insertMember d.job.modelDump (payloadSig,.str (d.signature crypto key))

/-- The request to the node, with the headers of `build_auth_headers` if its secret is known. -/
def request : RunRequest :=
  let body := d.body crypto key
  let req : RunRequest :=
    { method := "POST", path := "/run_job", body := Json.encode (.obj body) }
  match d.nodeSecret.filter (· ≠ "") with
  | none => req
  | some secret =>
    let ts := Text.truncate d.sentAt
    { req with nodeId := some d.nodeId,
               authTs := some ts.repr,
               authSig := some (signRequest crypto d.nodeId secret ts "POST" "/run_job" body) }

end Dispatch

variable {crypto : Crypto} {key : String} {d : Dispatch}

section Completeness

theorem payloadSig_not_mem (job : JobRecord) : payloadSig ∉ job.modelDump.map Prod.fst := by
  simp only [JobRecord.modelDump, List.map_cons, List.map_nil]
  decide

theorem body_eq (hkey : key ≠ "") :
    d.body crypto key =
      d.job.modelDump ++ [(payloadSig,.str (d.signature crypto key))] := by
  have hsig : d.signature crypto key ≠ "" := by
    rw [Dispatch.signature, signJobPayload, if_neg hkey]
    exact crypto.mac.nonempty _ _
  rw [Dispatch.body, if_neg hsig, Json.insertMember, if_neg (payloadSig_not_mem d.job)]

theorem wellFormed_body (crypto : Crypto) (key : String) (d : Dispatch) :
    Json.wellFormed (.obj (d.body crypto key)) = true := by
  rw [Dispatch.body]
  split_ifs
  · exact d.json
  · exact Json.wellFormed_insertMember d.json (by simp [Json.wellFormed])

/-- What was put into the payload is taken out of it. -/
theorem popMember_body (hkey : key ≠ "") :
    popMember (d.body crypto key) payloadSig =
      (d.job.modelDump,.str (d.signature crypto key)) := by
  have hne : ∀ m ∈ d.job.modelDump, m.1 ≠ payloadSig := by
    intro m hm he
    apply payloadSig_not_mem d.job
    rw [← he]
    exact List.mem_map_of_mem hm
  have hfilter : d.job.modelDump.filter (fun m => m.1 ≠ payloadSig) = d.job.modelDump := by
    rw [List.filter_eq_self]
    exact fun m hm => decide_eq_true (hne m hm)
  have hlookup : d.job.modelDump.lookup payloadSig = none := by
    rw [List.lookup_eq_none_iff]
    exact fun m hm => by simpa using (hne m hm).symm
  rw [popMember, body_eq hkey, jobField, List.filter_append, hfilter, List.lookup_append, hlookup]
  simp

/-- The signature in the payload is that of the payload without it. -/
theorem acceptPayload_body (hkey : key ≠ "") :
    acceptPayload crypto key (d.body crypto key) = .accepted d.job.modelDump := by
  have hsig : d.signature crypto key ≠ "" := by
    rw [Dispatch.signature, signJobPayload, if_neg hkey]
    exact crypto.mac.nonempty _ _
  have hverify : verifyJobPayload crypto.mac key d.job.modelDump (.str (d.signature crypto key)) =
      some true := by
    rw [verifyJobPayload, if_neg hkey, if_neg (by simp [Json.truthy, hsig])]
    rw [Dispatch.signature, signJobPayload, if_neg hkey]
    exact crypto.mac.compareDigest_self _ _
  rw [acceptPayload, popMember_body hkey]
  dsimp only
  rw [hverify]

theorem request_eq {secret : String} (hsecret : secret ≠ "") (hd : d.nodeSecret = some secret) :
    d.request crypto key =
      { method := "POST",
        path := "/run_job",
        nodeId := some d.nodeId,
        authTs := some (Text.truncate d.sentAt).repr,
        authSig := some (signRequest crypto d.nodeId secret (Text.truncate d.sentAt) "POST"
          "/run_job" (d.body crypto key)),
        body := Json.encode (.obj (d.body crypto key)) } := by
  rw [Dispatch.request, hd, Option.filter_some_pos (by simpa using hsecret)]

/-- A dispatched job is accepted as it is by its node, if their clocks agree well enough. -/
theorem handle_request {secret : String} (hsecret : secret ≠ "") (hkey : key ≠ "")
    (hd : d.nodeSecret = some secret) {now : ℚ}
    (hclock : |Text.truncate now - Text.truncate d.sentAt| ≤ maxSkewSec) :
    handle crypto key { nodeId := d.nodeId, nodeSecret := secret } now (d.request crypto key) =
      .accepted d.job.modelDump := by
  have hdecode : (Json.decode (Json.encode (.obj (d.body crypto key)))).bind Json.asObject =
      some (d.body crypto key) := by
    rw [Json.decode_encode (wellFormed_body crypto key d)]
    rfl
  have hheaders : verifyHeaders crypto now secret d.nodeId "POST" "/run_job" (d.body crypto key)
      (some (Text.truncate d.sentAt).repr)
      (some (signRequest crypto d.nodeId secret (Text.truncate d.sentAt) "POST" "/run_job"
        (d.body crypto key))) = some true := by
    rw [verifyHeaders_iff]
    exact ⟨_,_,rfl,Text.parseInt_repr _,hclock,rfl⟩
  rw [request_eq hsecret hd, handle, if_neg (by simp)]
  dsimp only
  rw [hdecode]
  dsimp only
  rw [runJob, if_neg (by simp), if_neg hsecret]
  dsimp only
  rw [hheaders]
  exact acceptPayload_body hkey

end Completeness

section Soundness

/-- A signature that an attacker without the secret can send: a code that an observed request carries
in its headers or in its payload, or any text that is no code under the secret. -/
def Obtainable (crypto : Crypto) (key secret : String) (traffic : List Dispatch)
    (signature : String) : Prop :=
  (∃ d ∈ traffic, (d.request crypto key).authSig = some signature) ∨
    (∃ d ∈ traffic, d.signature crypto key = signature) ∨
    ∀ m, signature ≠ crypto.mac.hexdigest secret m

/-- Two requests agree: in the node, the time as it is read, the method up to case, the path, and the
parsed body up to the order of its members. -/
structure Agrees (r r' : RunRequest) : Prop where
  nodeId : r.nodeId = r'.nodeId
  timestamp : ∃ t, r.authTs.bind Text.parseInt = some t ∧ r'.authTs.bind Text.parseInt = some t
  method : Text.upper r.method = Text.upper r'.method
  path : r.path = r'.path
  body : ∃ v v', Json.decode r.body = some v ∧ Json.decode r'.body = some v' ∧
    Json.canonical v = Json.canonical v'

/-- What `handle` has checked before it accepts a job. -/
theorem handle_accepted {state : AgentState} {now : ℚ} {req : RunRequest} {job : Json.Object}
    (hsecret : state.nodeSecret ≠ "")
    (h : handle crypto key state now req = .accepted job) :
    req.method = "POST" ∧ req.path = "/run_job" ∧ req.nodeId = some state.nodeId ∧
      ∃ payload, Json.decode req.body = some (.obj payload) ∧
        Signed crypto now state.nodeSecret state.nodeId "POST" "/run_job" payload req.authTs
          req.authSig := by
  rw [handle] at h
  split_ifs at h with hroute
  obtain ⟨hmethod,hpath⟩ := not_or.mp hroute
  rw [not_not] at hmethod hpath
  cases hbody : (Json.decode req.body).bind Json.asObject with
  | none => simp [hbody] at h
  | some payload =>
    rw [hbody] at h
    dsimp only at h
    rw [runJob] at h
    split_ifs at h with hid
    rw [not_not] at hid
    rw [hmethod, hpath] at h
    have hverify : verifyHeaders crypto now state.nodeSecret state.nodeId "POST" "/run_job" payload
        req.authTs req.authSig = some true := by
      cases hv : verifyHeaders crypto now state.nodeSecret state.nodeId "POST" "/run_job" payload
          req.authTs req.authSig with
      | none => simp [hv] at h
      | some ok =>
        cases ok with
        | false => simp [hv] at h
        | true => rfl
    refine ⟨hmethod,hpath,hid,payload,?_,(verifyHeaders_iff _ _ _ _ _ _ _ _ _).mp hverify⟩
    obtain ⟨v,hv,hobj⟩ := Option.bind_eq_some_iff.mp hbody
    cases v with
    | obj members =>
      obtain rfl := Option.some.inj hobj
      exact hv
    | _ => cases hobj

/-- The cryptography of an ideal hash function and ideal codes. -/
def idealCrypto (hash : IdealHash) (mac : IdealMac)
    (jwtDecode : String → String → Option Json.Object) : Crypto :=
  { sha256 := hash.hexdigest, mac := mac, jwtDecode := jwtDecode }

variable {hash : IdealHash} {mac : IdealMac} {jwtDecode : String → String → Option Json.Object}

/-- The text that is signed for a dispatch, as it is cut at its last colon. -/
theorem toList_message (nodeId : String) (ts : ℤ) (payload : Json.Object) :
    (requestMessage (idealCrypto hash mac jwtDecode) nodeId ts "POST" "/run_job" payload).toList =
      ((nodeId.toList ++ ':' :: ts.repr.toList) ++ ":POST:/run_job".toList) ++
        ':' :: (hash.hexdigest (Json.dumps (.obj payload))).toList := by
  have hupper : Text.upper "POST" = "POST" := by decide +kernel
  rw [requestMessage, hupper]
  simp [idealCrypto]

/-- The parts of the signed text can be told apart, whatever the id of the node is. -/
theorem message_inj {nodeId nodeId' : String} {ts ts' : ℤ} {payload payload' : Json.Object}
    (h : requestMessage (idealCrypto hash mac jwtDecode) nodeId ts "POST" "/run_job" payload =
      requestMessage (idealCrypto hash mac jwtDecode) nodeId' ts' "POST" "/run_job" payload') :
    nodeId = nodeId' ∧ ts = ts' ∧ Json.dumps (.obj payload) = Json.dumps (.obj payload') := by
  have hcolon : ∀ s, ':' ∉ (hash.hexdigest s).toList :=
    hash.not_mem (by decide) (by decide)
  have hnumeral : ∀ n : ℤ, ':' ∉ n.repr.toList := by
    intro n hmem
    rw [Json.toList_repr, Json.writeInt] at hmem
    have hdigits : ':' ∉ Nat.toDigits 10 n.natAbs := by
      intro hdigit
      have hfalse := Json.isDigit_toDigits hdigit
      revert hfalse
      decide
    split_ifs at hmem
    · obtain hminus | hdigit := List.mem_cons.mp hmem
      · revert hminus
        decide
      · exact hdigits hdigit
    · exact hdigits hmem
  have hlists := congrArg String.toList h
  rw [toList_message, toList_message] at hlists
  obtain ⟨hhead,hdigest⟩ := append_last_sep_inj (hcolon _) (hcolon _) hlists
  obtain ⟨hnode,hts⟩ := append_last_sep_inj (hnumeral ts) (hnumeral ts')
    (List.append_cancel_right hhead)
  have hvalue := congrArg Text.parseInt (String.toList_inj.mp hts)
  rw [Text.parseInt_repr, Text.parseInt_repr] at hvalue
  exact ⟨String.toList_inj.mp hnode,Option.some.inj hvalue,
    hash.injective (String.toList_inj.mp hdigest)⟩

/-- The text that is signed for a payload is no text that is signed for a dispatch. -/
theorem canonicalJobText_ne (job : Json.Object) (nodeId : String) (ts : ℤ)
    (payload : Json.Object) :
    canonicalJobText job ≠
      requestMessage (idealCrypto hash mac jwtDecode) nodeId ts "POST" "/run_job" payload := by
  intro h
  have hlast := congrArg (fun s => s.toList.getLast?) h
  have hbrace : (canonicalJobText job).toList.getLast? = some '\x7d' := by
    rw [canonicalJobText, Json.dumps, String.toList_append]
    exact List.getLast?_concat
  have hnot : '\x7d' ∉ (hash.hexdigest (Json.dumps (.obj payload))).toList :=
    hash.not_mem (by decide) (by decide) _
  rw [hbrace, toList_message, List.getLast?_append] at hlast
  have hmem : '\x7d' ∈ ':' :: (hash.hexdigest (Json.dumps (.obj payload))).toList := by
    refine List.mem_of_getLast? ?_
    rw [List.getLast?_cons] at hlast ⊢
    exact hlast.symm
  obtain hcolon | hdigest := List.mem_cons.mp hmem
  · revert hcolon
    decide
  · exact hnot hdigest

/-- What a node accepts from an attacker was dispatched to it. -/
theorem dispatched_of_accepted {state : AgentState} {now : ℚ} {req : RunRequest}
    {traffic : List Dispatch} {job : Json.Object} (hsecret : state.nodeSecret ≠ "")
    (hkey : key ≠ "")
    (hsig : ∀ signature ∈ req.authSig,
      Obtainable (idealCrypto hash mac jwtDecode) key state.nodeSecret traffic signature)
    (h : handle (idealCrypto hash mac jwtDecode) key state now req = .accepted job) :
    ∃ d ∈ traffic, d.nodeSecret = some state.nodeSecret ∧
      Agrees req (d.request (idealCrypto hash mac jwtDecode) key) := by
  obtain ⟨hmethod,hpath,hid,payload,hdecode,text,t,hts,hparse,-,hcode⟩ := handle_accepted hsecret h
  obtain ⟨d,hd,hheader⟩ | ⟨d,hd,hpayload⟩ | hforged := hsig _ hcode
  · cases hfilter : d.nodeSecret.filter (· ≠ "") with
    | none =>
      rw [Dispatch.request, hfilter] at hheader
      cases hheader
    | some secret =>
      obtain ⟨hsome,hne⟩ := Option.filter_eq_some_iff.mp hfilter
      have hreq : d.request (idealCrypto hash mac jwtDecode) key = _ :=
        request_eq (by simpa using hne) hsome
      rw [hreq, Option.some.injEq] at hheader
      obtain ⟨hkeys,hmessage⟩ := mac.injective hheader
      obtain ⟨hnode,htime,hdumps⟩ := message_inj hmessage
      refine ⟨d,hd,hsome.trans (congrArg some hkeys),?_⟩
      have hsent := wellFormed_body (idealCrypto hash mac jwtDecode) key d
      rw [hreq]
      exact {
        nodeId := hid.trans (congrArg some hnode.symm)
        timestamp := ⟨t,by rw [hts]; exact hparse,by rw [htime]; exact Text.parseInt_repr t⟩
        method := by rw [hmethod]
        path := hpath
        body := ⟨_,_,hdecode,Json.decode_encode hsent,
          (Json.dumps_inj (Json.wellFormed_of_decode hdecode) hsent).mp hdumps.symm⟩ }
  · rw [Dispatch.signature, signJobPayload, if_neg hkey] at hpayload
    exact absurd (mac.injective hpayload).2 (canonicalJobText_ne _ _ _ _)
  · exact absurd rfl (hforged _)

end Soundness

/-- A job with a result, sent to node `n1`. -/
def sentJob : Dispatch where
  nodeId := "n1"
  nodeSecret := some "s"
  job := {
    id := "j", type := .ai, task := "t", power := .low,
    result := some [("score",.float (1/2)),("tags",.arr [.str "\x22a\x22",.null])],
    createdAt := 3/2 }
  sentAt := 100
  json := by decide +kernel

end Arsonist.Node
