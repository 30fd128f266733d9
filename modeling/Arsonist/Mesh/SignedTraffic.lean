import Arsonist.Mesh.MeshProtocol

/-! Replay of signed traffic between clusters. The signature covers the body and the freshness
check reads a header beside it, so a captured body can be sent again with a new timestamp. -/
namespace Arsonist.Mesh
open Arsonist.Library Arsonist.Federation

/-- The two copies of the signing scheme. -/
inductive Scheme | federation | mesh
  deriving DecidableEq

namespace Scheme
variable (mac : IdealMac) (env : SecretEnv)

def key : Scheme → String
  | federation => secret env
  | mesh => meshSecret env

def maxSkew : Scheme → ℤ
  | federation => maxTsSkewSec env
  | mesh => maxMeshSkewSec env

def headers (now : ℚ) (payload : Json.Object) : Scheme → String × String
  | federation => buildHeaders mac env now payload
  | mesh => meshAuthHeaders mac env now payload

def verify (now : ℚ) (payload : Json.Object) (sig ts : Option String) : Scheme → Option Bool
  | federation => verifySignedClusterRequest mac env now payload sig ts
  | mesh => verifyIncomingGossip mac env now payload sig ts

end Scheme

/-- A message that an honest party has signed, and when. -/
structure Signing where
  scheme : Scheme
  payload : Json.Object
  madeAt : ℚ

section
variable (mac : IdealMac) (env : SecretEnv)

/-- The signature and the timestamp that were sent with the message. -/
def Signing.headers (h : Signing) : String × String := h.scheme.headers mac env h.madeAt h.payload

/-- Two payloads have the same JSON text. -/
def SameBody (p q : Json.Object) : Prop := Json.dumps (.obj p) = Json.dumps (.obj q)

/-- A signature that an attacker without the keys can send: a captured one, or any string that
is no code under either key. -/
def Obtainable (traffic : List Signing) (sig : String) : Prop :=
  (∃ h ∈ traffic, sig = (h.headers mac env).1) ∨
    ∀ (scheme : Scheme) (m : String), sig ≠ mac.hexdigest (scheme.key env) m

/-- Some honest party has signed the payload within the allowed skew of `now`. -/
def SignedRecently (scheme : Scheme) (traffic : List Signing) (now : ℚ)
    (payload : Json.Object) : Prop :=
  ∃ h ∈ traffic, SameBody h.payload payload ∧
    |Text.truncate now - Text.truncate h.madeAt| ≤ scheme.maxSkew env

/-- No attacker can have a payload accepted that was not signed recently. -/
def Protected (scheme : Scheme) (traffic : List Signing) (now : ℚ) : Prop :=
  ∀ payload sig ts, (∀ s ∈ sig, Obtainable mac env traffic s) →
    scheme.verify mac env now payload sig ts = some true →
    SignedRecently env scheme traffic now payload

end

variable {mac : IdealMac} {env : SecretEnv} {scheme : Scheme}

theorem headers_signature (h : Signing) :
    (h.headers mac env).1 = mac.hexdigest (h.scheme.key env) (Json.dumps (.obj h.payload)) := by
  unfold Signing.headers Scheme.headers
  cases h.scheme <;> rfl

/-- Acceptance is a fresh timestamp and, separately, the code of the body. -/
theorem verify_iff (hset : scheme.key env ≠ "") (now : ℚ) (payload : Json.Object)
    (sig ts : Option String) :
    scheme.verify mac env now payload sig ts = some true ↔
      timestampWithin (scheme.maxSkew env) now ts = true ∧
        sig = some (mac.hexdigest (scheme.key env) (Json.dumps (.obj payload))) := by
  cases scheme with
  | federation =>
    change secret env ≠ "" at hset
    rw [Scheme.verify, verifySignedClusterRequest, if_neg hset, verifyPayload, if_neg hset,
      verifyTimestampHeader]
    change _ ↔ timestampWithin (maxTsSkewSec env) now ts = true ∧ _
    split_ifs with hts
    · rw [signPayload, checkSignature_iff]
      exact ⟨fun h => ⟨hts,h⟩,fun h => h.2⟩
    · simp [hts]
  | mesh =>
    change meshSecret env ≠ "" at hset
    rw [Scheme.verify, verifyIncomingGossip, verifyMeshTimestamp, if_neg hset, verifyMeshPayload,
      if_neg hset]
    change _ ↔ timestampWithin (maxMeshSkewSec env) now ts = true ∧ _
    split_ifs with hts
    · rw [signMeshPayload, checkSignature_iff]
      exact ⟨fun h => ⟨hts,h⟩,fun h => h.2⟩
    · simp [hts]

/-- A captured message can be sent again at any time, with the timestamp of that time. -/
theorem replay_accepted (hset : scheme.key env ≠ "") (hskew : 0 ≤ scheme.maxSkew env)
    {h : Signing} (hkey : h.scheme.key env = scheme.key env) (now : ℚ) :
    scheme.verify mac env now h.payload (some (h.headers mac env).1)
      (some (Text.truncate now).repr) = some true := by
  rw [verify_iff hset, headers_signature, hkey]
  exact ⟨timestampWithin_now hskew now,rfl⟩

/-- Only a captured message is accepted. -/
theorem accepted_captured (hset : scheme.key env ≠ "") {traffic : List Signing} {now : ℚ}
    {payload : Json.Object} {sig ts : Option String}
    (hsig : ∀ s ∈ sig, Obtainable mac env traffic s)
    (haccept : scheme.verify mac env now payload sig ts = some true) :
    0 ≤ scheme.maxSkew env ∧
      ∃ h ∈ traffic, h.scheme.key env = scheme.key env ∧ SameBody h.payload payload := by
  obtain ⟨hts,rfl⟩ := (verify_iff hset now payload sig ts).mp haccept
  refine ⟨?_,?_⟩
  · by_contra hneg
    rw [not_timestampWithin (by omega)] at hts
    simp at hts
  · obtain ⟨h,hh,he⟩ | hfree := hsig _ rfl
    · rw [headers_signature] at he
      obtain ⟨hkey,hbody⟩ := mac.injective he
      exact ⟨h,hh,hkey.symm,hbody.symm⟩
    · exact absurd rfl (hfree scheme _)

/-- Replay protection holds at a moment if and only if every captured message that verifies
under the key has been signed again within the allowed skew of that moment. -/
theorem protected_iff (mac : IdealMac) (env : SecretEnv) (scheme : Scheme)
    (traffic : List Signing) (now : ℚ) (hset : scheme.key env ≠ "") :
    Protected mac env scheme traffic now ↔
      (0 ≤ scheme.maxSkew env → ∀ h ∈ traffic, h.scheme.key env = scheme.key env →
        SignedRecently env scheme traffic now h.payload) := by
  constructor
  · intro hp hskew h hh hkey
    refine hp h.payload _ _ ?_ (replay_accepted hset hskew hkey now)
    intro s hs
    exact Or.inl ⟨h,hh,(Option.some.inj hs).symm⟩
  · intro hrecent payload sig ts hsig haccept
    obtain ⟨hskew,h,hh,hkey,hbody⟩ := accepted_captured hset hsig haccept
    obtain ⟨g,hg,hgbody,hfresh⟩ := hrecent hskew h hh hkey
    exact ⟨g,hg,hgbody.trans hbody,hfresh⟩

/-- An environment with one secret for both schemes. -/
def sharedSecretEnv : SecretEnv := { federationSharedSecret := some "s" }

/-- A cluster reports that a job has failed. -/
def failureReport (scheme : Scheme) : Signing :=
  ⟨scheme,[("job_id",.str "j"),("cluster_id",.str "eu"),("ok",.bool false)],0⟩

theorem protected_iff_failureReport :
    Protected countingMac sharedSecretEnv .mesh [failureReport .mesh] 100 ↔
      (0 ≤ Scheme.mesh.maxSkew sharedSecretEnv → ∀ h ∈ [failureReport .mesh],
        h.scheme.key sharedSecretEnv = Scheme.mesh.key sharedSecretEnv →
        SignedRecently sharedSecretEnv .mesh [failureReport .mesh] 100 h.payload) :=
  protected_iff countingMac sharedSecretEnv .mesh [failureReport .mesh] 100 (by decide +kernel)

/-- In both schemes a report that was signed once is accepted a thousand seconds later. -/
theorem accepted_later (scheme : Scheme) :
    ¬ ∀ (mac : IdealMac) (env : SecretEnv) (traffic : List Signing) (now : ℚ),
      scheme.key env ≠ "" → (∀ h ∈ traffic, h.madeAt ≤ now) →
      Protected mac env scheme traffic now := by
  intro h
  have hset : scheme.key sharedSecretEnv ≠ "" := by cases scheme <;> decide +kernel
  have hskew : scheme.maxSkew sharedSecretEnv = 300 := by cases scheme <;> rfl
  have hp := h countingMac sharedSecretEnv [failureReport scheme] 1000 hset
    (by intro g hg; rw [List.mem_singleton.mp hg]; cases scheme <;> decide +kernel)
  have hreplay : scheme.verify countingMac sharedSecretEnv 1000 (failureReport scheme).payload
      (some ((failureReport scheme).headers countingMac sharedSecretEnv).1)
      (some (Text.truncate 1000).repr) = some true :=
    replay_accepted hset (by rw [hskew]; decide) rfl 1000
  obtain ⟨g,hg,_,hfresh⟩ := hp _ _ _
    (fun s hs => Or.inl ⟨_,List.mem_singleton_self _,(Option.some.inj hs).symm⟩) hreplay
  rw [List.mem_singleton.mp hg, hskew] at hfresh
  have hlate : ¬ |Text.truncate 1000 - Text.truncate (failureReport scheme).madeAt| ≤ 300 := by
    cases scheme <;> decide +kernel
  exact hlate hfresh

theorem not_protected :
    ¬ ∀ (scheme : Scheme) (mac : IdealMac) (env : SecretEnv) (traffic : List Signing) (now : ℚ),
      scheme.key env ≠ "" → (∀ h ∈ traffic, h.madeAt ≤ now) →
      Protected mac env scheme traffic now := by
  intro h
  exact accepted_later .mesh (h .mesh)

end Arsonist.Mesh
