import Arsonist.Gateway.Credentials

/-! Revocation of API tokens. The secret of a revoked token is refused from then on. A JWT that was
issued for the token is not looked up anywhere, and lives on until it expires. -/
namespace Arsonist.Gateway
open Arsonist.Library Arsonist.Identity
namespace GatewayState

/-- The credentials that were issued for a token and have not expired: its secret, and JWTs with its
id as their subject. -/
inductive IssuedFor (s : GatewayState) (now : ℚ) (tokenId : String) : String → Prop
  | secret (raw : String) (h : (raw,tokenId) ∈ s.given.secrets) : IssuedFor s now tokenId raw
  | jwt (raw : String) (claims : Json.Object) (subject : Subject)
      (h : (raw,claims) ∈ s.given.jwts) (hsubject : subjectOf claims = some subject)
      (hscope : subject.scope = .apiKey) (hsub : subject.sub = tokenId)
      (halive : Alive now claims) :
      IssuedFor s now tokenId raw

/-- A credential that neither of the two ways to authenticate accepts, from whatever header. -/
def Rejected (env : GatewayEnv) (s : GatewayState) (now : ℚ) (raw : String) : Prop :=
  ∀ authorization, bearer env.platform authorization = .ok raw →
    (∀ res, authenticateBearer env s.registry now authorization ≠ .ok res) ∧
    ∀ orgId caller, requireOrgCaller env s.registry now authorization orgId ≠ .ok caller

/-- No credential of a revoked token is accepted. -/
def Effective (env : GatewayEnv) (s : GatewayState) (now : ℚ) : Prop :=
  ∀ tokenId ∈ s.given.revocations, ∀ raw, IssuedFor s now tokenId raw → Rejected env s now raw

/-- A JWT that was issued for a revoked token and has not expired. -/
def Outstanding (s : GatewayState) (now : ℚ) (x : Issued) : Prop :=
  x ∈ s.given.jwts ∧ Alive now x.2 ∧
    ∃ subject, subjectOf x.2 = some subject ∧ subject.scope = .apiKey ∧
      subject.sub ∈ s.given.revocations

variable {env : GatewayEnv} {s : GatewayState} {now : ℚ}

section Secrets

/-- The index does not lead from the secret of a revoked token to any token that is in use. -/
theorem verifyOrgApiSecret_revoked (h : s.Sound env) {tokenId secret : String}
    (hmem : (secret,tokenId) ∈ s.given.secrets) (hrevoked : tokenId ∈ s.given.revocations) :
    s.registry.verifyOrgApiSecret env.platform secret = none := by
  obtain ⟨hsecret,rec,hrec,hhash⟩ := h.known _ hmem
  obtain ⟨old,hold,holdrevoked⟩ := h.revoked tokenId hrevoked
  rw [Registry.verifyOrgApiSecret, hsecret, if_neg (by decide)]
  cases hindex : s.registry.tokenHashIndex.get? (env.platform.sha256 secret) with
  | none => rfl
  | some entry =>
    obtain ⟨found,hfound,hfoundhash⟩ := h.index _ entry hindex
    have hid : entry.tokenId = tokenId :=
      h.hashes _ found _ rec hfound hrec (hfoundhash.trans hhash.symm)
    dsimp only
    rw [hid, hold]
    split_ifs
    · rfl
    · exact Option.filter_some_neg (by simpa using holdrevoked)

theorem rejected_secret (h : s.Sound env) {tokenId secret : String}
    (hmem : (secret,tokenId) ∈ s.given.secrets) (hrevoked : tokenId ∈ s.given.revocations) :
    Rejected env s now secret := by
  have hverify := verifyOrgApiSecret_revoked h hmem hrevoked
  have hsecret := (h.known _ hmem).1
  intro authorization hbearer
  constructor
  · intro res hres
    rw [authenticateBearer, hbearer] at hres
    change authenticate env s.registry now secret = _ at hres
    rw [authenticate, if_pos hsecret, hverify] at hres
    cases hres
  · intro orgId caller hcaller
    rw [requireOrgCaller, hbearer] at hcaller
    change orgCaller env s.registry now orgId secret = _ at hcaller
    rw [orgCaller, if_pos hsecret, hverify] at hcaller
    cases hcaller

end Secrets

section Jwts

/-- A JWT of the gateway is read as long as it has not expired. -/
theorem decodeV12Subject_issued (h : s.Sound env) (hideal : env.Ideal) {x : Issued}
    (hmem : x ∈ s.given.jwts) (halive : Alive now x.2) :
    env.decodeV12Subject now x.1 = some (subjectOf x.2) := by
  obtain ⟨hsecret,htoken,hwell⟩ := h.signed x hmem
  rw [SessionEnv.decodeV12Subject, if_neg hsecret, htoken, hideal.decode_encode _ _ _ hwell,
    if_pos halive]
  rfl

/-- Both ways to authenticate accept a JWT that has not expired. -/
theorem accepted_jwt (h : s.Sound env) (hideal : env.Ideal) {x : Issued} {subject : Subject}
    (hmem : x ∈ s.given.jwts) (halive : Alive now x.2) (hsubject : subjectOf x.2 = some subject)
    (hscope : subject.scope = .apiKey) :
    ∃ authorization, bearer env.platform authorization = .ok x.1 ∧
      (∃ res, authenticateBearer env s.registry now authorization = .ok res) ∧
      ∃ caller, requireOrgCaller env s.registry now authorization subject.orgId = .ok caller := by
  obtain ⟨-,htoken,-⟩ := h.signed x hmem
  have hbearer : bearer env.platform (some ("Bearer " ++ x.1)) = .ok x.1 := by
    rw [htoken]
    exact bearer_encode hideal x.2 env.jwtSecret
  have hword : Registry.isSecret x.1 = false := by
    rw [htoken]
    exact hideal.isSecret_encode x.2 env.jwtSecret
  have hdecode := decodeV12Subject_issued h hideal hmem halive
  rw [hsubject] at hdecode
  have hauthenticate : authenticate env s.registry now x.1 = .ok {
      tenant := some { orgId := subject.orgId, tokenId := some subject.sub }
      legacyInferenceOk := false } := by
    rw [authenticate, hword, if_neg (by decide), hdecode]
    dsimp only
    rw [hscope]
  have hcaller : orgCaller env s.registry now subject.orgId x.1 =
      .ok { kind := .apiKey, orgId := subject.orgId, sub := subject.sub } := by
    rw [orgCaller, hword, if_neg (by decide), hdecode]
    dsimp only
    rw [if_neg (not_not.mpr rfl), hscope]
  have hboth := fun {α : Type} (f : String → Reply α) =>
    congrArg (fun raw => Except.bind raw f) hbearer
  exact ⟨_,hbearer,⟨_,(hboth _).trans hauthenticate⟩,⟨_,(hboth _).trans hcaller⟩⟩

end Jwts

/-- After a fresh run, revocation is effective exactly as long as no JWT of a revoked token is
outstanding. -/
theorem revocations_effective_iff (hideal : env.Ideal)
    (hsha : Function.Injective env.platform.sha256)
    (calls : List GatewayCall) (hfresh : FreshRun env calls) (now : ℚ) :
    Effective env (run (exec env) {} calls) now ↔
      ∀ x, ¬ Outstanding (run (exec env) {} calls) now x := by
  have h := sound_run hsha hfresh
  constructor
  · rintro heffective x ⟨hmem,halive,subject,hsubject,hscope,hrevoked⟩
    obtain ⟨authorization,hbearer,⟨res,hres⟩,-⟩ := accepted_jwt h hideal hmem halive hsubject hscope
    have hrejected := heffective _ hrevoked x.1
      (.jwt x.1 x.2 subject hmem hsubject hscope rfl halive)
    exact (hrejected authorization hbearer).1 res hres
  · intro hnone tokenId hrevoked raw hissued
    cases hissued with
    | secret hmem => exact rejected_secret h hmem hrevoked
    | jwt claims subject hmem hsubject hscope hsub halive =>
      exact absurd ⟨hmem,halive,subject,hsubject,hscope,hsub ▸ hrevoked⟩ (hnone (raw,claims))

section Outlives

/-- A token for which a JWT is issued before it is revoked. -/
def revokedAfterIssue : List GatewayCall :=
  [.createOrganization "org" "Acme" "acme",.createOrgApiToken 0 "atk" "sk_1" "org" "default",
   .issueApiKeyJwt 0 "org" "atk" none,.revokeOrgApiToken "atk"]

theorem fresh_revokedAfterIssue : FreshRun clearEnv revokedAfterIssue := by
  refine ⟨trivial,?_,trivial,trivial,trivial⟩
  decide +kernel

/-- The JWT of the token. -/
def outliving : Issued :=
  (Jwt.clear.encode (apiKeyClaims 0 86400 "org" "atk") "secret",apiKeyClaims 0 86400 "org" "atk")

theorem jwts_revokedAfterIssue :
    (run (exec clearEnv) {} revokedAfterIssue).given.jwts = [outliving] := rfl

theorem revocations_revokedAfterIssue :
    (run (exec clearEnv) {} revokedAfterIssue).given.revocations = ["atk"] := by decide +kernel

/-- A day after the JWT was issued, the revocation is effective. -/
theorem revocations_effective_nextDay :
    Effective clearEnv (run (exec clearEnv) {} revokedAfterIssue) 86400 := by
  refine (revocations_effective_iff (ideal_clear "secret") Function.injective_id revokedAfterIssue
    fresh_revokedAfterIssue 86400).mpr ?_
  rintro x ⟨hmem,halive,-⟩
  rw [jwts_revokedAfterIssue, List.mem_singleton] at hmem
  subst hmem
  exact absurd halive (by decide +kernel)

theorem not_revocations_effective : ¬ ∀ (env : GatewayEnv), env.Ideal →
    Function.Injective env.platform.sha256 → ∀ calls, FreshRun env calls → ∀ now,
      Effective env (run (exec env) {} calls) now := by
  intro h
  have heffective := h clearEnv (ideal_clear "secret") Function.injective_id revokedAfterIssue
    fresh_revokedAfterIssue 1
  have hsound := sound_run Function.injective_id fresh_revokedAfterIssue
  have hmem : outliving ∈ (run (exec clearEnv) {} revokedAfterIssue).given.jwts := by
    rw [jwts_revokedAfterIssue]
    exact List.mem_singleton_self _
  have halive : Alive 1 outliving.2 := by decide +kernel
  have hrevoked : "atk" ∈ (run (exec clearEnv) {} revokedAfterIssue).given.revocations := by
    rw [revocations_revokedAfterIssue]
    exact List.mem_singleton_self _
  obtain ⟨authorization,hbearer,⟨res,hres⟩,-⟩ :=
    accepted_jwt hsound (ideal_clear "secret") hmem halive (subjectOf_apiKeyClaims _ _ _ _) rfl
  exact (heffective "atk" hrevoked _
    (.jwt _ _ _ hmem (subjectOf_apiKeyClaims _ _ _ _) rfl rfl halive) authorization hbearer).1 res
      hres

end Outlives

end GatewayState
end Arsonist.Gateway
