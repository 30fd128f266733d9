import Arsonist.Gateway.Credentials

/-! Credentials and the organisations that they are for. A credential of the gateway is for one
organisation, and who is called a caller of an organisation has a credential for it. -/
namespace Arsonist.Gateway
open Arsonist.Library Arsonist.Identity
namespace GatewayState

/-- A credential that was handed out for an organisation and is in order now: the secret of one of
its tokens, or a JWT for it. -/
inductive Scoped (s : GatewayState) (now : ℚ) (raw orgId : String) : Prop
  | secret (tokenId : String) (rec : ApiToken) (h : (raw,tokenId) ∈ s.given.secrets)
      (hrec : s.registry.apiTokens.get? tokenId = some rec) (horg : rec.orgId = orgId)
      (hrevoked : rec.revoked = false)
  | jwt (claims : Json.Object) (subject : Subject) (h : (raw,claims) ∈ s.given.jwts)
      (hsubject : subjectOf claims = some subject) (horg : subject.orgId = orgId)
      (halive : Alive now claims)

/-- What is decoded was signed here, or is the credential of a node. -/
def Genuine (env : GatewayEnv) (s : GatewayState) (now : ℚ) (authorization : Option String) :
    Prop :=
  ∀ raw claims, bearer env.platform authorization = .ok raw →
    env.jwt.decode now raw env.jwtSecret = some claims →
      (raw,claims) ∈ s.given.jwts ∨ claims.lookup "scope" = some (.str "arsonist-node")

variable {env : GatewayEnv} {s : GatewayState} {now : ℚ} {raw orgId : String}

theorem subjectOf_node {claims : Json.Object}
    (h : claims.lookup "scope" = some (.str "arsonist-node")) : subjectOf claims = none := by
  rw [subjectOf, h]
  cases claims.lookup "org_id" with
  | none => rfl
  | some org =>
    cases org with
    | str orgId =>
      cases claims.lookup "sub" with
      | none => rfl
      | some sub => cases sub <;> rfl
    | _ => rfl

/-- The secrets of two tokens differ. -/
theorem Sound.secret_unique (h : s.Sound env) {tokenId tokenId' : String}
    (hmem : (raw,tokenId) ∈ s.given.secrets) (hmem' : (raw,tokenId') ∈ s.given.secrets) :
    tokenId = tokenId' := by
  obtain ⟨-,rec,hrec,hhash⟩ := h.known _ hmem
  obtain ⟨-,rec',hrec',hhash'⟩ := h.known _ hmem'
  exact h.hashes _ rec _ rec' hrec hrec' (hhash.trans hhash'.symm)

/-- A JWT is read as the claims that it was issued for. -/
theorem Sound.decode_jwt (h : s.Sound env) (hideal : env.Ideal) {claims : Json.Object}
    (hmem : (raw,claims) ∈ s.given.jwts) :
    env.jwt.decode now raw env.jwtSecret = if Alive now claims then some claims else none := by
  obtain ⟨-,htoken,hwell⟩ := h.signed _ hmem
  dsimp only at htoken hwell
  rw [htoken, hideal.decode_encode _ _ _ hwell]

theorem Sound.jwt_word (h : s.Sound env) (hideal : env.Ideal) {claims : Json.Object}
    (hmem : (raw,claims) ∈ s.given.jwts) : Registry.isSecret raw = false := by
  obtain ⟨-,htoken,-⟩ := h.signed _ hmem
  dsimp only at htoken
  rw [htoken]
  exact hideal.isSecret_encode claims env.jwtSecret

/-- A credential is for one organisation. -/
theorem Scoped.unique (h : s.Sound env) (hideal : env.Ideal) {orgId' : String}
    (hscoped : s.Scoped now raw orgId) (hscoped' : s.Scoped now raw orgId') : orgId = orgId' := by
  cases hscoped with
  | secret tokenId rec hmem hrec horg hrevoked =>
    cases hscoped' with
    | secret tokenId' rec' hmem' hrec' horg' hrevoked' =>
      obtain rfl := h.secret_unique hmem hmem'
      obtain rfl := Option.some.inj (hrec.symm.trans hrec')
      exact horg.symm.trans horg'
    | jwt claims' subject' hmem' hsubject' horg' halive' =>
      exact absurd (h.known _ hmem).1 (by rw [h.jwt_word hideal hmem']; decide)
  | jwt claims subject hmem hsubject horg halive =>
    cases hscoped' with
    | secret tokenId' rec' hmem' hrec' horg' hrevoked' =>
      exact absurd (h.known _ hmem').1 (by rw [h.jwt_word hideal hmem]; decide)
    | jwt claims' subject' hmem' hsubject' horg' halive' =>
      have hread : env.jwt.decode now raw env.jwtSecret = some claims := by
        rw [h.decode_jwt hideal hmem, if_pos halive]
      have hread' : env.jwt.decode now raw env.jwtSecret = some claims' := by
        rw [h.decode_jwt hideal hmem', if_pos halive']
      obtain rfl := Option.some.inj (hread.symm.trans hread')
      obtain rfl := Option.some.inj (hsubject.symm.trans hsubject')
      exact horg.symm.trans horg'

/-- A secret that is verified is the one that was handed out with the token. -/
theorem secret_of_verify (h : s.Sound env) (hsha : Function.Injective env.platform.sha256)
    {rec : ApiToken} (hverify : s.registry.verifyOrgApiSecret env.platform raw = some rec) :
    (raw,rec.tokenId) ∈ s.given.secrets ∧
      s.registry.apiTokens.get? rec.tokenId = some rec ∧ rec.revoked = false := by
  rw [Registry.verifyOrgApiSecret] at hverify
  split_ifs at hverify
  cases hindex : s.registry.tokenHashIndex.get? (env.platform.sha256 raw) with
  | none => rw [hindex] at hverify; cases hverify
  | some entry =>
    rw [hindex] at hverify
    dsimp only at hverify
    split_ifs at hverify
    obtain ⟨hget,hlive⟩ := Option.filter_eq_some_iff.mp hverify
    have hid : rec.tokenId = entry.tokenId := Table.key_of_get? hget
    obtain ⟨found,hfound,hhash⟩ := h.index _ entry hindex
    obtain rfl := Option.some.inj (hget.symm.trans hfound)
    obtain ⟨secret,hsecret,hdigest⟩ := h.given _ rec hget
    obtain rfl := hsha (hdigest.trans hhash)
    rw [hid]
    exact ⟨hsecret,hget,by simpa using hlive⟩

/-- A genuine JWT that names a subject is one that was issued, and has not expired. -/
theorem issued_of_decode (h : s.Sound env) (hideal : env.Ideal) {authorization : Option String}
    (hgenuine : Genuine env s now authorization) {claims : Json.Object} {subject : Subject}
    (hraw : bearer env.platform authorization = .ok raw)
    (hdecode : env.jwt.decode now raw env.jwtSecret = some claims)
    (hsubject : subjectOf claims = some subject) :
    (raw,claims) ∈ s.given.jwts ∧ Alive now claims := by
  cases hgenuine raw claims hraw hdecode with
  | inl hmem =>
    refine ⟨hmem,?_⟩
    by_contra halive
    rw [h.decode_jwt hideal hmem, if_neg halive] at hdecode
    cases hdecode
  | inr hnode =>
    rw [subjectOf_node hnode] at hsubject
    cases hsubject

/-- The header with a JWT that was issued is genuine. -/
theorem genuine_issued (h : s.Sound env) (hideal : env.Ideal) {x : Issued}
    (hmem : x ∈ s.given.jwts) : Genuine env s now (some ("Bearer " ++ x.1)) := by
  intro raw claims hraw hdecode
  obtain ⟨-,htoken,-⟩ := h.signed x hmem
  rw [htoken, bearer_encode hideal, ← htoken] at hraw
  obtain rfl := Except.ok.inj hraw
  rw [h.decode_jwt hideal hmem] at hdecode
  split_ifs at hdecode
  obtain rfl := Option.some.inj hdecode
  exact Or.inl hmem

/-- Who is called a caller of an organisation has a credential for it, and for no other. -/
theorem scoped_of_calledBy (h : s.Sound env) (hideal : env.Ideal)
    (hsha : Function.Injective env.platform.sha256) {authorization : Option String}
    (hgenuine : Genuine env s now authorization) {caller : Caller}
    (hcalled : CalledBy env s.registry now authorization orgId caller) :
    ∃ raw, bearer env.platform authorization = .ok raw ∧
      ∀ orgId', s.Scoped now raw orgId' ↔ orgId' = orgId := by
  obtain ⟨raw,hraw,hcalls⟩ := hcalled
  have hscoped : s.Scoped now raw orgId := by
    cases hcalls with
    | secret rec hsecret hverify horg =>
      obtain ⟨hmem,hget,hlive⟩ := secret_of_verify h hsha hverify
      exact .secret rec.tokenId rec hmem hget horg hlive
    | jwt claims subject hword hdecode hsubject horg =>
      obtain ⟨hmem,halive⟩ := issued_of_decode h hideal hgenuine hraw hdecode hsubject
      exact .jwt claims subject hmem hsubject horg halive
  refine ⟨raw,hraw,fun orgId' => ⟨fun hother => hother.unique h hideal hscoped,?_⟩⟩
  rintro rfl
  exact hscoped

end GatewayState
end Arsonist.Gateway
