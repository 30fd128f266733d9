import Arsonist.Library.Floats
import Arsonist.Library.History
import Arsonist.Library.JsonText
import Arsonist.Library.Mac
import Arsonist.Library.Text

/-! Signed requests between regions. What is signed is the payload followed by the text of the
timestamp; the sender is a header beside it. -/
namespace Arsonist.Networking
open Arsonist.Library

/-- `float(text)`, where `none` stands for a `ValueError`, and `str(value)`. -/
structure FloatText where
  read : String → Option PyFloat
  write : PyFloat → String

/-- Floats in ASCII, written with all their decimals. -/
def FloatText.ascii : FloatText where
  read text :=
    let (negative,l) := Json.readSign ((Text.stripped text.toList).map Char.toLower)
    if l = "nan".toList then some .nan
    else if l = "inf".toList ∨ l = "infinity".toList then some (.infinity negative)
    else (Json.parseFloat text).map .number
  write
    | .number q => String.ofList (Json.writeFloat q)
    | .infinity negative => if negative then "-inf" else "inf"
    | .nan => "nan"

/-- `abs(now-ts)`. -/
def skewOf (now : ℚ) : PyFloat → PyFloat
  | .number q => .number |now-q|
  | .infinity _ => .infinity false
  | .nan => .nan

structure TransportAudit where
  ts : ℚ
  event : String
  peer : String
  skew : Option PyFloat := none

structure EncryptedTransport where
  localId : String
  secret : String
  maxSkewSec : ℚ := 300
  trustedPeers : List String := []
  auditLog : List TransportAudit := []
  authFailures : ℕ := 0

namespace EncryptedTransport
variable (floats : FloatText) (mac : IdealMac) (t : EncryptedTransport)

/-- Without a list of trusted peers, everyone is trusted. -/
def isTrusted (peerId : String) : Bool := t.trustedPeers = [] ∨ peerId ∈ t.trustedPeers

/-- The key of the codes. -/
def key : String := if t.secret = "" then "default" else t.secret

/-- The code of a message of bytes. -/
def code (message : List UInt8) : String := mac.hexdigest t.key (Bytes.latin1 message)

structure Headers where
  signature : String
  timestamp : String
  sender : String

/-- `timestamp or now_ts()`. -/
def timestampOr (now : ℚ) (timestamp : Option PyFloat) : PyFloat :=
  (timestamp.filter fun ts => ts ≠ .number 0).getD (.number now)

def signRequest (now : ℚ) (payload : List UInt8) (timestamp : Option PyFloat) : Headers :=
  let text := floats.write (timestampOr now timestamp)
  { signature := t.code mac (payload ++ Bytes.utf8 text),
    timestamp := text,
    sender := t.localId }

def recordAudit (entry : TransportAudit) : EncryptedTransport :=
  { t with auditLog := truncated 500 (t.auditLog ++ [entry]) }

def reject (entry : TransportAudit) : EncryptedTransport × Option Bool :=
  ({ t.recordAudit entry with authFailures := t.authFailures+1 },some false)

/-- `verify_request`. The comparison raises for a signature outside of ASCII. -/
def verifyRequest (now : ℚ) (payload : List UInt8) (signature timestamp sender : String) :
    EncryptedTransport × Option Bool :=
  if t.isTrusted sender = false then
    t.reject { ts := now, event := "auth_rejected_untrusted", peer := sender }
  else
    match floats.read timestamp with
    | none => t.reject { ts := now, event := "auth_rejected_bad_timestamp", peer := sender }
    | some ts =>
      if (skewOf now ts).exceeds t.maxSkewSec then
        t.reject { ts := now, event := "auth_rejected_clock_skew", peer := sender,
                   skew := some (skewOf now ts) }
      else
        match IdealMac.compareDigest (t.code mac (payload ++ Bytes.utf8 timestamp)) signature with
        | none => (t,none)
        | some false =>
          t.reject { ts := now, event := "auth_rejected_bad_signature", peer := sender }
        | some true =>
          (t.recordAudit { ts := now, event := "auth_success", peer := sender },some true)

/-- A timestamp that is read as a float and not found too far from now. -/
def Fresh (now : ℚ) (timestamp : String) : Prop :=
  ∃ ts, floats.read timestamp = some ts ∧ (skewOf now ts).exceeds t.maxSkewSec = false

variable {floats mac t}

theorem verifyRequest_iff {now : ℚ} {payload : List UInt8} {signature timestamp sender : String} :
    (t.verifyRequest floats mac now payload signature timestamp sender).2 = some true ↔
      t.isTrusted sender = true ∧ t.Fresh floats now timestamp ∧
        signature = t.code mac (payload ++ Bytes.utf8 timestamp) := by
  rw [verifyRequest, Fresh]
  by_cases htrusted : t.isTrusted sender = true
  · rw [if_neg (by simp [htrusted])]
    cases hread : floats.read timestamp with
    | none => simp [reject]
    | some ts =>
      by_cases hlate : (skewOf now ts).exceeds t.maxSkewSec = true
      · simp [hlate, reject]
      · simp only [if_neg hlate]
        have hcompare : IdealMac.compareDigest (t.code mac (payload ++ Bytes.utf8 timestamp))
            signature = some true ↔ signature = t.code mac (payload ++ Bytes.utf8 timestamp) := by
          constructor
          · exact fun h => (mac.compareDigest_hexdigest h).symm
          · rintro rfl
            exact mac.compareDigest_self _ _
        rw [Bool.not_eq_true] at hlate
        have hfresh : ∃ ts', some ts = some ts' ∧ (skewOf now ts').exceeds t.maxSkewSec = false :=
          ⟨ts,rfl,hlate⟩
        rw [and_iff_right htrusted, and_iff_right hfresh, ← hcompare]
        cases IdealMac.compareDigest (t.code mac (payload ++ Bytes.utf8 timestamp)) signature with
        | none => simp
        | some accepted => cases accepted <;> simp [reject]
  · rw [if_pos (by simpa using htrusted)]
    simp [reject, htrusted]

/-- Codes are equal for equal messages only. -/
theorem code_injective {m m' : List UInt8} (h : t.code mac m = t.code mac m') : m = m' :=
  Bytes.latin1_injective (mac.injective h).2

end EncryptedTransport
end Arsonist.Networking

/-! What an accepted request says about who has signed it. A captured code is good for every way to
cut the signed bytes into a payload and a timestamp, and for every trusted sender. -/
namespace Arsonist.Networking
open Arsonist.Library

namespace EncryptedTransport

/-- A request that a trusted party has signed. -/
structure Signing where
  party : String
  payload : List UInt8
  timestamp : Option PyFloat
  madeAt : ℚ

section
variable (floats : FloatText) (mac : IdealMac) (secret : String)

/-- The headers that a party with the shared secret sends with its request. -/
def Signing.headers (h : Signing) : Headers :=
  signRequest floats mac { localId := h.party, secret := secret } h.madeAt h.payload h.timestamp

/-- The bytes that are signed. -/
def Signing.message (h : Signing) : List UInt8 :=
  h.payload ++ Bytes.utf8 (floats.write (timestampOr h.madeAt h.timestamp))

/-- The party has signed exactly this payload and this timestamp. -/
def SignedBy (traffic : List Signing) (party : String) (payload : List UInt8)
    (timestamp : String) : Prop :=
  ∃ h ∈ traffic, (h.headers floats mac secret).sender = party ∧ h.payload = payload ∧
    (h.headers floats mac secret).timestamp = timestamp

/-- A signature that an attacker without the secret can send: a captured one, or any text that is no
code under the key. -/
def Obtainable (t : EncryptedTransport) (traffic : List Signing) (signature : String) : Prop :=
  (∃ h ∈ traffic, signature = (h.headers floats mac t.secret).signature) ∨
    ∀ m, signature ≠ mac.hexdigest t.key m

/-- Whatever an attacker sends: what is accepted was signed by the party that it names. -/
def Authentic (t : EncryptedTransport) (traffic : List Signing) (now : ℚ) : Prop :=
  ∀ payload signature timestamp sender, Obtainable floats mac t traffic signature →
    (t.verifyRequest floats mac now payload signature timestamp sender).2 = some true →
    SignedBy floats mac t.secret traffic sender payload timestamp

/-- Every way to cut a signed message into a payload and a fresh timestamp was signed, as that, by
every trusted party. -/
def Unambiguous (t : EncryptedTransport) (traffic : List Signing) (now : ℚ) : Prop :=
  ∀ h ∈ traffic, ∀ payload timestamp, h.message floats = payload ++ Bytes.utf8 timestamp →
    t.Fresh floats now timestamp → ∀ sender, t.isTrusted sender = true →
      SignedBy floats mac t.secret traffic sender payload timestamp

end

variable {floats : FloatText} {mac : IdealMac} {t : EncryptedTransport} {traffic : List Signing}
  {now : ℚ}

theorem headers_signature (h : Signing) :
    (h.headers floats mac t.secret).signature = t.code mac (h.message floats) := rfl

/-- A captured code is accepted for every cut of its message and every trusted sender. -/
theorem accepted_of_cut {h : Signing} {payload : List UInt8} {timestamp sender : String}
    (hcut : h.message floats = payload ++ Bytes.utf8 timestamp)
    (hfresh : t.Fresh floats now timestamp) (htrusted : t.isTrusted sender = true) :
    (t.verifyRequest floats mac now payload (h.headers floats mac t.secret).signature timestamp
      sender).2 = some true := by
  rw [verifyRequest_iff, headers_signature, hcut]
  exact ⟨htrusted,hfresh,rfl⟩

/-- What is accepted from an attacker is a cut of a captured message. -/
theorem cut_of_accepted {payload : List UInt8} {signature timestamp sender : String}
    (hsig : Obtainable floats mac t traffic signature)
    (haccept : (t.verifyRequest floats mac now payload signature timestamp sender).2 = some true) :
    t.isTrusted sender = true ∧ t.Fresh floats now timestamp ∧
      ∃ h ∈ traffic, h.message floats = payload ++ Bytes.utf8 timestamp := by
  obtain ⟨htrusted,hfresh,rfl⟩ := verifyRequest_iff.mp haccept
  refine ⟨htrusted,hfresh,?_⟩
  obtain ⟨h,hmem,hcode⟩ | hforged := hsig
  · rw [headers_signature] at hcode
    exact ⟨h,hmem,(code_injective hcode).symm⟩
  · exact absurd rfl (hforged _)

/-- Acceptance is authentic exactly when no message is ambiguous. -/
theorem authentic_iff (floats : FloatText) (mac : IdealMac) (t : EncryptedTransport)
    (traffic : List Signing) (now : ℚ) :
    Authentic floats mac t traffic now ↔ Unambiguous floats mac t traffic now := by
  constructor
  · intro hauthentic h hmem payload timestamp hcut hfresh sender htrusted
    refine hauthentic payload _ timestamp sender ?_ (accepted_of_cut hcut hfresh htrusted)
    exact Or.inl ⟨h,hmem,rfl⟩
  · intro hclear payload signature timestamp sender hsig haccept
    obtain ⟨htrusted,hfresh,h,hmem,hcut⟩ := cut_of_accepted hsig haccept
    exact hclear h hmem payload timestamp hcut hfresh sender htrusted

/-- The sender is not signed: what is accepted is accepted as the request of any trusted party. -/
theorem accepted_as_other {payload : List UInt8} {signature timestamp sender other : String}
    (haccept : (t.verifyRequest floats mac now payload signature timestamp sender).2 = some true)
    (hother : t.isTrusted other = true) :
    (t.verifyRequest floats mac now payload signature timestamp other).2 = some true := by
  rw [verifyRequest_iff] at haccept ⊢
  exact ⟨hother,haccept.2⟩

/-- A verifier without a list of trusted peers takes nothing that was signed, or names someone who
has not signed it. -/
theorem unambiguous_iff_of_all (hall : t.trustedPeers = []) :
    Unambiguous floats mac t traffic now ↔
      ∀ h ∈ traffic, ∀ payload timestamp, h.message floats = payload ++ Bytes.utf8 timestamp →
        ¬ t.Fresh floats now timestamp := by
  constructor
  · intro hclear h hmem payload timestamp hcut hfresh
    obtain ⟨stranger,hstranger⟩ :=
      Infinite.exists_notMem_finset (traffic.map fun g => g.party).toFinset
    obtain ⟨g,hg,hparty,-⟩ := hclear h hmem payload timestamp hcut hfresh stranger
      (by simp [isTrusted, hall])
    apply hstranger
    rw [List.mem_toFinset, List.mem_map]
    exact ⟨g,hg,hparty⟩
  · exact fun hnone h hmem payload timestamp hcut hfresh =>
      absurd hfresh (hnone h hmem payload timestamp hcut)

section Captured

/-- A verifier that trusts every sender. -/
def verifier : EncryptedTransport := { localId := "us", secret := "s" }

/-- A region orders ten. -/
def orderTen : Signing :=
  { party := "eu", payload := Bytes.utf8 "count=10",
    timestamp := some (.number (3400000001/2)), madeAt := 1700000000 }

theorem message_orderTen :
    orderTen.message FloatText.ascii = Bytes.utf8 "count=1" ++ Bytes.utf8 "01700000000.5" := by
  decide +kernel

theorem fresh_orderTen : verifier.Fresh FloatText.ascii 1700000000 "01700000000.5" :=
  ⟨.number (3400000001/2),by decide +kernel,by decide +kernel⟩

/-- The last digit of the payload is moved to the timestamp: an order of one is accepted. -/
theorem accepted_orderOne :
    (verifier.verifyRequest FloatText.ascii countingMac 1700000000 (Bytes.utf8 "count=1")
      (orderTen.headers FloatText.ascii countingMac "s").signature "01700000000.5" "eu").2 =
        some true :=
  accepted_of_cut (t := verifier) message_orderTen fresh_orderTen rfl

theorem not_authentic :
    ¬ Authentic FloatText.ascii countingMac verifier [orderTen] 1700000000 := by
  intro h
  obtain ⟨g,hg,-,hpayload,-⟩ := h _ _ _ _ (Or.inl ⟨orderTen,List.mem_singleton_self _,rfl⟩)
    accepted_orderOne
  rw [List.mem_singleton.mp hg] at hpayload
  revert hpayload
  decide +kernel

end Captured
end EncryptedTransport
end Arsonist.Networking
