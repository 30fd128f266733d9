import Arsonist.Gateway.Outcomes
import Arsonist.Library.Steps

/-! The credentials that have been handed out. Each token has a digest of its own, the index of
digests leads to the token that it was made for, and a revoked token stays revoked. -/
namespace Arsonist.Gateway
open Arsonist.Library Arsonist.Identity Arsonist.Audit Arsonist.Billing

/-- A token that was drawn at random: its id and its secret are new, and the secret looks like
one. -/
structure Drawn (s : GatewayState) (tokenId secret : String) : Prop where
  unused : s.registry.apiTokens.get? tokenId = none
  unknown : ∀ x ∈ s.given.secrets, x.1 ≠ secret
  isSecret : Registry.isSecret secret = true

instance (s : GatewayState) (tokenId secret : String) : Decidable (Drawn s tokenId secret) :=
  decidable_of_iff (s.registry.apiTokens.get? tokenId = none ∧
    (∀ x ∈ s.given.secrets, x.1 ≠ secret) ∧ Registry.isSecret secret = true)
    ⟨fun h => ⟨h.1,h.2.1,h.2.2⟩,fun h => ⟨h.1,h.2,h.3⟩⟩

/-- The ids and secrets that a request may use are drawn. -/
def OrgRequest.Fresh (s : GatewayState) (req : OrgRequest) : Prop :=
  match req.route with
  | .tokensCreate tokenId secret => Drawn s tokenId secret
  | .invoice invoiceId _ _ => s.invoices.get? invoiceId = none
  | _ => True

instance (s : GatewayState) (req : OrgRequest) : Decidable (req.Fresh s) := by
  unfold OrgRequest.Fresh
  split <;> infer_instance

def GatewayCall.Fresh (s : GatewayState) : GatewayCall → Prop
  | .bootstrapOrg _ draws _ => Drawn s draws.tokenId draws.secret
  | .serve _ _ req => req.Fresh s
  | .createOrgApiToken _ tokenId secret _ _ => Drawn s tokenId secret
  | .rotateOrgApiToken _ newTokenId secret _ => Drawn s newTokenId secret
  | _ => True

instance (s : GatewayState) (c : GatewayCall) : Decidable (c.Fresh s) := by
  unfold GatewayCall.Fresh
  split <;> infer_instance

namespace GatewayState

/-- What holds of the credentials in every state. -/
structure Sound (env : GatewayEnv) (s : GatewayState) : Prop where
  index : ∀ d entry, s.registry.tokenHashIndex.get? d = some entry →
    ∃ rec, s.registry.apiTokens.get? entry.tokenId = some rec ∧ rec.hash = d
  known : ∀ x ∈ s.given.secrets, Registry.isSecret x.1 = true ∧
    ∃ rec, s.registry.apiTokens.get? x.2 = some rec ∧ rec.hash = env.platform.sha256 x.1
  given : ∀ tokenId rec, s.registry.apiTokens.get? tokenId = some rec →
    ∃ secret, (secret,tokenId) ∈ s.given.secrets ∧ env.platform.sha256 secret = rec.hash
  hashes : ∀ tokenId rec tokenId' rec', s.registry.apiTokens.get? tokenId = some rec →
    s.registry.apiTokens.get? tokenId' = some rec' → rec.hash = rec'.hash → tokenId = tokenId'
  revoked : ∀ tokenId ∈ s.given.revocations,
    ∃ rec, s.registry.apiTokens.get? tokenId = some rec ∧ rec.revoked = true
  signed : ∀ x ∈ s.given.jwts, env.jwtSecret ≠ "" ∧ x.1 = env.jwt.encode x.2 env.jwtSecret ∧
    Json.wellFormed (.obj x.2) = true

variable {env : GatewayEnv} {s s' : GatewayState}

/-- What is the same about the credentials of two states. -/
structure SameCredentials (s s' : GatewayState) : Prop where
  apiTokens : s'.registry.apiTokens = s.registry.apiTokens
  tokenHashIndex : s'.registry.tokenHashIndex = s.registry.tokenHashIndex
  secrets : s'.given.secrets = s.given.secrets
  revocations : s'.given.revocations = s.given.revocations
  jwts : s'.given.jwts = s.given.jwts

theorem Sound.of_same (h : s.Sound env) (hsame : SameCredentials s s') : s'.Sound env := by
  obtain ⟨htokens,hindex,hsecrets,hrevocations,hjwts⟩ := hsame
  refine ⟨?_,?_,?_,?_,?_,?_⟩
  · rw [htokens, hindex]
    exact h.index
  · rw [htokens, hsecrets]
    exact h.known
  · rw [htokens, hsecrets]
    exact h.given
  · rw [htokens]
    exact h.hashes
  · rw [htokens, hrevocations]
    exact h.revoked
  · rw [hjwts]
    exact h.signed

theorem sound_start : Sound env {} := by
  refine ⟨?_,?_,?_,?_,?_,?_⟩
  · intro d entry h
    cases h
  · intro x hx
    exact absurd hx List.not_mem_nil
  · intro tokenId rec h
    cases h
  · intro tokenId rec tokenId' rec' h
    cases h
  · intro tokenId h
    exact absurd h List.not_mem_nil
  · intro x hx
    exact absurd hx List.not_mem_nil

section Tokens

theorem key_token (rec : ApiToken) : Keyed.key rec = rec.tokenId := rfl

theorem key_entry (entry : HashEntry) : Keyed.key entry = entry.digest := rfl

/-- The state with a new token. -/
def withToken (s : GatewayState) (rec : ApiToken) (secret : String) : GatewayState :=
  { s with registry := { s.registry with
             apiTokens := s.registry.apiTokens.put rec,
             tokenHashIndex :=
               s.registry.tokenHashIndex.put { digest := rec.hash, tokenId := rec.tokenId } },
           given := { s.given with secrets := s.given.secrets ++ [(secret,rec.tokenId)] } }

/-- The state with a token revoked. -/
def withRevoked (s : GatewayState) (rec : ApiToken) : GatewayState :=
  { s with registry := { s.registry with
             apiTokens := s.registry.apiTokens.put { rec with revoked := true },
             tokenHashIndex := s.registry.tokenHashIndex.erase rec.hash },
           given := { s.given with revocations := s.given.revocations ++ [rec.tokenId] } }

@[simp] theorem get?_withToken (rec : ApiToken) (secret id : String) :
    (s.withToken rec secret).registry.apiTokens.get? id =
      if id = rec.tokenId then some rec else s.registry.apiTokens.get? id := Table.get?_put _ _ _

@[simp] theorem index_withToken (rec : ApiToken) (secret digest : String) :
    (s.withToken rec secret).registry.tokenHashIndex.get? digest =
      if digest = rec.hash then some { digest := rec.hash, tokenId := rec.tokenId }
      else s.registry.tokenHashIndex.get? digest := Table.get?_put _ _ _

@[simp] theorem get?_withRevoked (rec : ApiToken) (id : String) :
    (s.withRevoked rec).registry.apiTokens.get? id =
      if id = rec.tokenId then some { rec with revoked := true }
      else s.registry.apiTokens.get? id := Table.get?_put _ _ _

@[simp] theorem index_withRevoked (rec : ApiToken) (digest : String) :
    (s.withRevoked rec).registry.tokenHashIndex.get? digest =
      if digest = rec.hash then none else s.registry.tokenHashIndex.get? digest :=
  Table.get?_erase _ _ _

/-- A token is made with the digest of its secret. -/
theorem create_cases {now : ℚ} {tokenId secret orgId name : String} {token : Registry.NewToken}
    (h : s.createOrgApiToken env now tokenId secret orgId name = some (s',token)) :
    ∃ rec : ApiToken, rec.tokenId = tokenId ∧ rec.orgId = orgId ∧
      rec.hash = env.platform.sha256 secret ∧ token.tokenId = tokenId ∧
      s' = s.withToken rec secret := by
  rw [createOrgApiToken, Registry.createOrgApiToken] at h
  split_ifs at h
  · obtain ⟨rfl,rfl⟩ := Prod.mk.inj (Option.some.inj h)
    exact ⟨_,rfl,rfl,rfl,rfl,rfl⟩
  · cases h

theorem revoke_of_known {rec : ApiToken}
    (h : s.registry.apiTokens.get? rec.tokenId = some rec) :
    s.revokeOrgApiToken rec.tokenId = (s.withRevoked rec,true) := by
  rw [revokeOrgApiToken, Registry.revokeOrgApiToken, h]
  rfl

/-- An unknown token is not revoked. -/
theorem revoke_cases (s : GatewayState) (tokenId : String) :
    SameCredentials s (s.revokeOrgApiToken tokenId).1 ∨
      ∃ rec, s.registry.apiTokens.get? tokenId = some rec ∧ rec.tokenId = tokenId ∧
        (s.revokeOrgApiToken tokenId).1 = s.withRevoked rec := by
  cases hget : s.registry.apiTokens.get? tokenId with
  | none =>
    rw [revokeOrgApiToken, Registry.revokeOrgApiToken, hget]
    exact Or.inl ⟨rfl,rfl,rfl,List.append_nil _,rfl⟩
  | some rec =>
    obtain rfl : rec.tokenId = tokenId := Table.key_of_get? hget
    exact Or.inr ⟨rec,rfl,rfl,congrArg Prod.fst (revoke_of_known hget)⟩

/-- A new token gets a digest that no other one has. -/
theorem Sound.create (h : s.Sound env) (hsha : Function.Injective env.platform.sha256)
    {now : ℚ} {tokenId secret orgId name : String} {token : Registry.NewToken}
    (hdrawn : Drawn s tokenId secret)
    (hcreate : s.createOrgApiToken env now tokenId secret orgId name = some (s',token)) :
    s'.Sound env := by
  obtain ⟨new,rfl,-,hnew,-,rfl⟩ := create_cases hcreate
  -- a token from before keeps its place, and its digest is another one
  have hold : ∀ {id rec}, s.registry.apiTokens.get? id = some rec →
      (s.withToken new secret).registry.apiTokens.get? id = some rec := by
    intro id rec hget
    rw [get?_withToken, if_neg, hget]
    rintro rfl
    rw [hdrawn.unused] at hget
    cases hget
  have hdigest : ∀ {id rec}, s.registry.apiTokens.get? id = some rec → rec.hash ≠ new.hash := by
    intro id rec hget hhash
    obtain ⟨other,hmem,hother⟩ := h.given id rec hget
    exact hdrawn.unknown _ hmem (hsha (hother.trans (hhash.trans hnew)))
  refine ⟨?_,?_,?_,?_,?_,h.signed⟩
  · intro d entry hentry
    rw [index_withToken] at hentry
    split_ifs at hentry with hd
    · obtain rfl := Option.some.inj hentry
      exact ⟨new,by rw [get?_withToken, if_pos rfl],hd.symm⟩
    · obtain ⟨rec,hget,hhash⟩ := h.index d entry hentry
      exact ⟨rec,hold hget,hhash⟩
  · intro x hx
    cases List.mem_append.mp hx with
    | inl hx =>
      obtain ⟨hsecret,rec,hget,hhash⟩ := h.known x hx
      exact ⟨hsecret,rec,hold hget,hhash⟩
    | inr hx =>
      obtain rfl := List.mem_singleton.mp hx
      exact ⟨hdrawn.isSecret,new,by rw [get?_withToken, if_pos rfl],hnew⟩
  · intro id rec hget
    rw [get?_withToken] at hget
    split_ifs at hget with hid
    · obtain rfl := Option.some.inj hget
      exact ⟨secret,List.mem_append_right _ (hid ▸ List.mem_singleton_self _),hnew.symm⟩
    · obtain ⟨other,hmem,hother⟩ := h.given id rec hget
      exact ⟨other,List.mem_append_left _ hmem,hother⟩
  · intro id rec id' rec' hget hget' hhash
    rw [get?_withToken] at hget hget'
    split_ifs at hget hget' with hid hid' hid'
    · exact hid.trans hid'.symm
    · obtain rfl := Option.some.inj hget
      exact absurd hhash.symm (hdigest hget')
    · obtain rfl := Option.some.inj hget'
      exact absurd hhash (hdigest hget)
    · exact h.hashes id rec id' rec' hget hget' hhash
  · intro id hid
    obtain ⟨rec,hget,hrevoked⟩ := h.revoked id hid
    exact ⟨rec,hold hget,hrevoked⟩

/-- A token after a revocation is one from before, with the same digest. -/
theorem before_withRevoked {rec new : ApiToken} {id : String}
    (hrec : s.registry.apiTokens.get? rec.tokenId = some rec)
    (h : (s.withRevoked rec).registry.apiTokens.get? id = some new) :
    ∃ old, s.registry.apiTokens.get? id = some old ∧ old.hash = new.hash := by
  rw [get?_withRevoked] at h
  split_ifs at h with hid
  · obtain rfl := Option.some.inj h
    exact ⟨rec,hid ▸ hrec,rfl⟩
  · exact ⟨new,h,rfl⟩

/-- Every token is still there after a revocation, and revoked if it was. -/
theorem after_withRevoked {rec old : ApiToken} {id : String}
    (hrec : s.registry.apiTokens.get? rec.tokenId = some rec)
    (h : s.registry.apiTokens.get? id = some old) :
    ∃ new, (s.withRevoked rec).registry.apiTokens.get? id = some new ∧
      new.hash = old.hash ∧ (old.revoked = true → new.revoked = true) := by
  rw [get?_withRevoked]
  split_ifs with hid
  · rw [hid, hrec] at h
    obtain rfl := Option.some.inj h
    exact ⟨_,rfl,rfl,fun _ => rfl⟩
  · exact ⟨old,h,rfl,fun hr => hr⟩

/-- A revocation marks the token, and takes its digest out of the index. -/
theorem Sound.revoke (h : s.Sound env) (tokenId : String) :
    (s.revokeOrgApiToken tokenId).1.Sound env := by
  obtain hsame | ⟨rec,hrec,rfl,heq⟩ := revoke_cases s tokenId
  · exact h.of_same hsame
  rw [heq]
  refine ⟨?_,?_,?_,?_,?_,h.signed⟩
  · intro d entry hentry
    rw [index_withRevoked] at hentry
    split_ifs at hentry
    obtain ⟨old,hold,hhash⟩ := h.index d entry hentry
    obtain ⟨new,hnew,hsame,-⟩ := after_withRevoked hrec hold
    exact ⟨new,hnew,hsame.trans hhash⟩
  · intro x hx
    obtain ⟨hsecret,old,hold,hhash⟩ := h.known x hx
    obtain ⟨new,hnew,hsame,-⟩ := after_withRevoked hrec hold
    exact ⟨hsecret,new,hnew,hsame.trans hhash⟩
  · intro id new hnew
    obtain ⟨old,hold,hhash⟩ := before_withRevoked hrec hnew
    obtain ⟨secret,hmem,hsecret⟩ := h.given id old hold
    exact ⟨secret,hmem,hsecret.trans hhash⟩
  · intro id new id' new' hnew hnew' hhash
    obtain ⟨old,hold,hsame⟩ := before_withRevoked hrec hnew
    obtain ⟨old',hold',hsame'⟩ := before_withRevoked hrec hnew'
    exact h.hashes id old id' old' hold hold' (hsame.trans (hhash.trans hsame'.symm))
  · intro id hid
    cases List.mem_append.mp hid with
    | inl hid =>
      obtain ⟨old,hold,hrevoked⟩ := h.revoked id hid
      obtain ⟨new,hnew,-,hkeeps⟩ := after_withRevoked hrec hold
      exact ⟨new,hnew,hkeeps hrevoked⟩
    | inr hid =>
      refine ⟨{ rec with revoked := true },?_,rfl⟩
      rw [get?_withRevoked, if_pos (List.mem_singleton.mp hid)]

theorem drawn_of_same {tokenId secret : String} (h : Drawn s tokenId secret)
    (htokens : s'.registry.apiTokens = s.registry.apiTokens)
    (hsecrets : s'.given.secrets = s.given.secrets) : Drawn s' tokenId secret :=
  ⟨htokens ▸ h.unused,hsecrets ▸ h.unknown,h.isSecret⟩

/-- The audit log does not matter to what is drawn. -/
theorem fresh_withAudit {req : OrgRequest} (h : req.Fresh s) (log : AuditLog) :
    req.Fresh { s with audit := log } := by
  rw [OrgRequest.Fresh] at h ⊢
  cases hroute : req.route with
  | tokensCreate tokenId secret =>
    rw [hroute] at h
    exact drawn_of_same h rfl rfl
  | invoice invoiceId period prices =>
    rw [hroute] at h
    exact h
  | getOrg => trivial
  | usage => trivial
  | tokensList => trivial
  | tokensDel tokenId => trivial
  | auditLog => trivial

theorem drawn_revoke {newTokenId secret : String} (h : Drawn s newTokenId secret)
    (tokenId : String) : Drawn (s.revokeOrgApiToken tokenId).1 newTokenId secret := by
  obtain hsame | ⟨rec,hrec,rfl,heq⟩ := revoke_cases s tokenId
  · exact drawn_of_same h hsame.apiTokens hsame.secrets
  · rw [heq]
    refine ⟨?_,h.unknown,h.isSecret⟩
    rw [get?_withRevoked, if_neg, h.unused]
    rintro rfl
    rw [h.unused] at hrec
    cases hrec

/-- A revocation for an organisation is refused, or the token is one of the organisation's. -/
theorem revokeForOrg_cases (s : GatewayState) (orgId tokenId : String) :
    (SameCredentials s (s.revokeOrgApiTokenForOrg orgId tokenId).1 ∧
        (s.revokeOrgApiTokenForOrg orgId tokenId).2 = false) ∨
      ∃ rec, s.registry.apiTokens.get? tokenId = some rec ∧ rec.orgId = orgId ∧
        s.revokeOrgApiTokenForOrg orgId tokenId = s.revokeOrgApiToken tokenId := by
  have hrefused : s.registry.revokeOrgApiTokenForOrg orgId tokenId = (s.registry,false) →
      SameCredentials s (s.revokeOrgApiTokenForOrg orgId tokenId).1 ∧
        (s.revokeOrgApiTokenForOrg orgId tokenId).2 = false := by
    intro heq
    simp only [revokeOrgApiTokenForOrg, heq]
    exact ⟨⟨rfl,rfl,rfl,List.append_nil _,rfl⟩,trivial⟩
  cases hget : s.registry.apiTokens.get? tokenId with
  | none =>
    refine Or.inl (hrefused ?_)
    rw [Registry.revokeOrgApiTokenForOrg, hget]
  | some rec =>
    by_cases horg : rec.orgId = orgId
    · refine Or.inr ⟨rec,rfl,horg,?_⟩
      have heq : s.registry.revokeOrgApiTokenForOrg orgId tokenId =
          s.registry.revokeOrgApiToken tokenId := by
        rw [Registry.revokeOrgApiTokenForOrg, hget]
        exact if_neg (not_not.mpr horg)
      simp only [revokeOrgApiTokenForOrg, revokeOrgApiToken, heq]
    · refine Or.inl (hrefused ?_)
      rw [Registry.revokeOrgApiTokenForOrg, hget]
      exact if_pos horg

/-- A rotation is refused, or revokes the old token and then may make a new one. -/
theorem rotate_cases (env : GatewayEnv) (s : GatewayState) (now : ℚ)
    (newTokenId secret tokenId : String) :
    SameCredentials s (s.rotateOrgApiToken env now newTokenId secret tokenId).1 ∨
      SameCredentials (s.revokeOrgApiToken tokenId).1
        (s.rotateOrgApiToken env now newTokenId secret tokenId).1 ∨
      ∃ (rec : ApiToken) (new : Registry.NewToken),
        (s.revokeOrgApiToken tokenId).1.createOrgApiToken env now newTokenId secret rec.orgId
          rec.name = some ((s.rotateOrgApiToken env now newTokenId secret tokenId).1,new) := by
  cases hold : (s.registry.apiTokens.get? tokenId).filter fun rec => !rec.revoked with
  | none =>
    have heq : s.registry.rotateOrgApiToken env.platform now newTokenId secret tokenId =
        (s.registry,none) := by
      rw [Registry.rotateOrgApiToken, hold]
    refine Or.inl ?_
    simp only [rotateOrgApiToken, heq, hold]
    exact ⟨rfl,rfl,List.append_nil _,List.append_nil _,rfl⟩
  | some rec =>
    have hget := (Option.filter_eq_some_iff.mp hold).1
    have hrevoked : (s.registry.revokeOrgApiToken tokenId).2 = true := by
      rw [Registry.revokeOrgApiToken, hget]
    refine Or.inr ?_
    cases hcreate : (s.registry.revokeOrgApiToken tokenId).1.createOrgApiToken env.platform now
      newTokenId secret rec.orgId rec.name with
    | none =>
      have heq : s.registry.rotateOrgApiToken env.platform now newTokenId secret tokenId =
          ((s.registry.revokeOrgApiToken tokenId).1,none) := by
        rw [Registry.rotateOrgApiToken, hold]
        dsimp only
        rw [hcreate]
      refine Or.inl ?_
      simp only [rotateOrgApiToken, revokeOrgApiToken, heq, hold, hrevoked]
      exact ⟨rfl,rfl,List.append_nil _,rfl,rfl⟩
    | some x =>
      have heq : s.registry.rotateOrgApiToken env.platform now newTokenId secret tokenId =
          (x.1,some x.2) := by
        rw [Registry.rotateOrgApiToken, hold]
        dsimp only
        rw [hcreate]
      refine Or.inr ⟨rec,x.2,?_⟩
      simp only [createOrgApiToken, rotateOrgApiToken, revokeOrgApiToken, heq, hold, hrevoked,
        hcreate]
      rfl

end Tokens

section Calls

theorem wellFormed_userClaims (iat ttl : ℤ) (userId orgId role : String) :
    Json.wellFormed (.obj (userClaims iat ttl userId orgId role)) = true := by
  simp [userClaims, Json.wellFormed, Json.membersWellFormed]

theorem wellFormed_apiKeyClaims (iat ttl : ℤ) (orgId tokenId : String) :
    Json.wellFormed (.obj (apiKeyClaims iat ttl orgId tokenId)) = true := by
  simp [apiKeyClaims, Json.wellFormed, Json.membersWellFormed]

/-- A JWT that is issued is signed with the secret. -/
theorem Sound.issue (h : s.Sound env) {claims : Json.Object} {issued : Issued}
    (hissue : env.issue claims = some issued) (hwell : Json.wellFormed (.obj claims) = true) :
    Sound env { s with given := { s.given with jwts := s.given.jwts ++ [issued] } } := by
  rw [SessionEnv.issue] at hissue
  split_ifs at hissue with hsecret
  obtain rfl := Option.some.inj hissue
  refine ⟨h.index,h.known,h.given,h.hashes,h.revoked,fun x hx => ?_⟩
  obtain hx | hx := List.mem_append.mp hx
  · exact h.signed x hx
  · obtain rfl := List.mem_singleton.mp hx
    exact ⟨hsecret,rfl,hwell⟩

theorem Sound.revokeForOrg (h : s.Sound env) (orgId tokenId : String) :
    (s.revokeOrgApiTokenForOrg orgId tokenId).1.Sound env := by
  obtain ⟨hsame,-⟩ | ⟨rec,-,-,heq⟩ := revokeForOrg_cases s orgId tokenId
  · exact h.of_same hsame
  · rw [heq]
    exact h.revoke tokenId

theorem Sound.outcome (h : s.Sound env) (hsha : Function.Injective env.platform.sha256) {now : ℚ}
    {req : OrgRequest} {reply : OrgReply} (hfresh : req.Fresh s)
    (hout : Outcome env now s req s' reply) : s'.Sound env := by
  cases hout with
  | getOrg caller org hroute hcaller horg => exact h
  | usage caller hroute hcaller => exact h
  | invoice caller role invoiceId period prices hroute hcaller =>
    exact h.of_same ⟨rfl,rfl,rfl,rfl,rfl⟩
  | tokensList caller role hroute hcaller => exact h
  | tokensCreate caller role tokenId secret s' token hroute hcaller hcreate =>
    rw [OrgRequest.Fresh, hroute] at hfresh
    exact h.create hsha hfresh hcreate
  | tokensDel caller role tokenId hroute hcaller hrevoked => exact h.revokeForOrg req.orgId tokenId
  | auditLog caller hroute hcaller => exact h

theorem Sound.serve (h : s.Sound env) (hsha : Function.Injective env.platform.sha256) {now : ℚ}
    {req : OrgRequest} (hfresh : req.Fresh s) (admission : Admission) :
    (s.serve env now admission req).1.Sound env := by
  have hserved := served_serve env s now admission req
  generalize s.serve env now admission req = x at hserved ⊢
  cases hserved with
  | refused log e => exact h.of_same ⟨rfl,rfl,rfl,rfl,rfl⟩
  | answered before after s' reply hlog horg hout =>
    have hbefore : Sound env { s with audit := before } := h.of_same ⟨rfl,rfl,rfl,rfl,rfl⟩
    have hafter := hbefore.outcome hsha (fresh_withAudit hfresh before) hout
    exact hafter.of_same ⟨rfl,rfl,rfl,rfl,rfl⟩

theorem Sound.bootstrapOrg (h : s.Sound env) (hsha : Function.Injective env.platform.sha256)
    {now : ℚ} {draws : Draws} {req : BootstrapRequest}
    (hdrawn : Drawn s draws.tokenId draws.secret) :
    (s.bootstrapOrg env now draws req).1.Sound env := by
  obtain ⟨e,heq⟩ | ⟨s',row,reply,hcreate,-,-,heq⟩ := bootstrapOrg_cases env s now draws req
  · rw [heq]
    exact h
  · rw [heq]
    have howner : Sound env { s with registry := withOwner env.platform s.registry draws req } :=
      h.of_same ⟨rfl,rfl,rfl,rfl,rfl⟩
    have hnew := howner.create hsha (drawn_of_same hdrawn rfl rfl) hcreate
    exact hnew.of_same ⟨rfl,rfl,rfl,rfl,rfl⟩

theorem Sound.issueUserJwt (h : s.Sound env) {now : ℚ} {userId orgId role : String}
    {ttlSec : Option ℤ} {x : GatewayState × Issued}
    (hissue : s.issueUserJwt env now userId orgId role ttlSec = some x) : x.1.Sound env := by
  obtain ⟨issued,hissued,rfl⟩ := Option.map_eq_some_iff.mp hissue
  exact h.issue hissued (wellFormed_userClaims _ _ _ _ _)

theorem Sound.issueApiKeyJwt (h : s.Sound env) {now : ℚ} {orgId tokenId : String}
    {ttlSec : Option ℤ} {x : GatewayState × Issued}
    (hissue : s.issueApiKeyJwt env now orgId tokenId ttlSec = some x) : x.1.Sound env := by
  obtain ⟨issued,hissued,rfl⟩ := Option.map_eq_some_iff.mp hissue
  exact h.issue hissued (wellFormed_apiKeyClaims _ _ _ _)

theorem Sound.session (h : s.Sound env) (now : ℚ) (req : SessionRequest) :
    (s.session env now req).1.Sound env := by
  obtain ⟨log,e,heq⟩ | ⟨user,role,s',issued,row,-,-,-,hissue,heq⟩ := session_cases env s now req
  · rw [heq]
    exact h.of_same ⟨rfl,rfl,rfl,rfl,rfl⟩
  · rw [heq]
    exact (h.issueUserJwt hissue).of_same ⟨rfl,rfl,rfl,rfl,rfl⟩

theorem Sound.rotate (h : s.Sound env) (hsha : Function.Injective env.platform.sha256) {now : ℚ}
    {newTokenId secret : String} (hdrawn : Drawn s newTokenId secret) (tokenId : String) :
    (s.rotateOrgApiToken env now newTokenId secret tokenId).1.Sound env := by
  obtain hsame | hsame | ⟨rec,new,hcreate⟩ := rotate_cases env s now newTokenId secret tokenId
  · exact h.of_same hsame
  · exact (h.revoke tokenId).of_same hsame
  · exact (h.revoke tokenId).create hsha (drawn_revoke hdrawn tokenId) hcreate

theorem sound_exec (hsha : Function.Injective env.platform.sha256) (c : GatewayCall)
    (hfresh : c.Fresh s) (h : s.Sound env) : (s.exec env c).Sound env := by
  cases c with
  | bootstrapOrg now draws req => exact h.bootstrapOrg hsha hfresh
  | session now req => exact h.session now req
  | serve now admission req => exact h.serve hsha hfresh admission
  | createOrganization orgId name slug => exact h.of_same ⟨rfl,rfl,rfl,rfl,rfl⟩
  | updateOrgPlan orgId plan =>
    refine h.of_same ?_
    rw [exec, Registry.updateOrgPlan]
    cases s.registry.orgs.get? orgId with
    | none => exact ⟨rfl,rfl,rfl,rfl,rfl⟩
    | some org => exact ⟨rfl,rfl,rfl,rfl,rfl⟩
  | setCustomLimits orgId limits => exact h.of_same ⟨rfl,rfl,rfl,rfl,rfl⟩
  | createUser userId salt email displayName password => exact h.of_same ⟨rfl,rfl,rfl,rfl,rfl⟩
  | addUserToOrg userId orgId role =>
    refine h.of_same ?_
    rw [exec, Registry.addUserToOrg]
    split_ifs
    · exact ⟨rfl,rfl,rfl,rfl,rfl⟩
    · exact ⟨rfl,rfl,rfl,rfl,rfl⟩
  | createOrgApiToken now tokenId secret orgId name =>
    rw [exec]
    cases hcreate : s.createOrgApiToken env now tokenId secret orgId name with
    | none => exact h
    | some x => exact h.create hsha hfresh hcreate
  | revokeOrgApiToken tokenId => exact h.revoke tokenId
  | rotateOrgApiToken now newTokenId secret tokenId => exact h.rotate hsha hfresh tokenId
  | issueUserJwt now userId orgId role ttlSec =>
    rw [exec]
    cases hissue : s.issueUserJwt env now userId orgId role ttlSec with
    | none => exact h
    | some x => exact h.issueUserJwt hissue
  | issueApiKeyJwt now orgId tokenId ttlSec =>
    rw [exec]
    cases hissue : s.issueApiKeyJwt env now orgId tokenId ttlSec with
    | none => exact h
    | some x => exact h.issueApiKeyJwt hissue
  | record orgId row => exact h.of_same ⟨rfl,rfl,rfl,rfl,rfl⟩
  | appendAudit row => exact h.of_same ⟨rfl,rfl,rfl,rfl,rfl⟩

/-- A run of the gateway in which what is drawn is new. -/
abbrev FreshRun (env : GatewayEnv) (calls : List GatewayCall) : Prop :=
  Along (exec env) (fun s c => c.Fresh s) {} calls

theorem sound_run (hsha : Function.Injective env.platform.sha256) {calls : List GatewayCall}
    (h : FreshRun env calls) : (run (exec env) {} calls).Sound env :=
  run_invariant (fun _ c hfresh hs => sound_exec hsha c hfresh hs) h sound_start

end Calls

/-- The header of a JWT is read back. -/
theorem bearer_encode (hideal : env.Ideal) (claims : Json.Object) (secret : String) :
    bearer env.platform (some ("Bearer " ++ env.jwt.encode claims secret)) =
      .ok (env.jwt.encode claims secret) := by
  have hstarts : "Bearer ".toList.isPrefixOf ("Bearer " ++ env.jwt.encode claims secret).toList =
      true := by
    rw [String.toList_append, List.isPrefixOf_iff_prefix]
    exact List.prefix_append _ _
  simp only [bearer]
  rw [hstarts, if_neg (by decide), String.toList_append, List.drop_left' (by decide),
    String.ofList_toList, hideal.strip_encode]

/-- A gateway that signs in clear. -/
def clearEnv : GatewayEnv := { SessionEnv.clear "secret" with bootstrapToken := "boot" }

end GatewayState
end Arsonist.Gateway
