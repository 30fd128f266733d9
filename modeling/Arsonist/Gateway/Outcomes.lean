import Arsonist.Gateway.ApiGateway

/-! What a successful request to a route of an organisation says about its caller, and what it
changes and shows: one case for each route. -/
namespace Arsonist.Gateway
open Arsonist.Library Arsonist.Identity Arsonist.Audit Arsonist.Billing

section Callers
variable {env : GatewayEnv} {r : Registry} {now : ℚ} {authorization : Option String}
  {orgId : String}

/-- A result that is there comes from a result before it. -/
theorem bind_ok {α β : Type} {x : Reply α} {f : α → Reply β} {b : β} (h : x.bind f = .ok b) :
    ∃ a, x = .ok a ∧ f a = .ok b := by
  cases x with
  | error e => cases h
  | ok a => exact ⟨a,rfl,h⟩

/-- A caller of an organisation: the secret of a token of the organisation, or a JWT for it. -/
inductive Calls (env : GatewayEnv) (r : Registry) (now : ℚ) (orgId raw : String) : Caller → Prop
  | secret (rec : ApiToken) (h : Registry.isSecret raw = true)
      (hrec : r.verifyOrgApiSecret env.platform raw = some rec) (horg : rec.orgId = orgId) :
      Calls env r now orgId raw { kind := .apiKey, orgId := orgId, sub := rec.tokenId }
  | jwt (claims : Json.Object) (subject : Subject) (h : Registry.isSecret raw = false)
      (hdecode : env.jwt.decode now raw env.jwtSecret = some claims)
      (hsubject : subjectOf claims = some subject) (horg : subject.orgId = orgId) :
      Calls env r now orgId raw {
        kind := match subject.scope with
          | .user => .user
          | .apiKey => .apiKey,
        orgId := orgId,
        sub := subject.sub }

/-- `decode_v12_subject` reads the claims of a token. -/
theorem decodeV12Subject_eq_some {raw : String} {subject : Subject}
    (h : env.decodeV12Subject now raw = some (some subject)) :
    ∃ claims, env.jwt.decode now raw env.jwtSecret = some claims ∧
      subjectOf claims = some subject := by
  rw [SessionEnv.decodeV12Subject] at h
  split_ifs at h
  exact Option.bind_eq_some_iff.mp (Option.some.inj h)

theorem calls_of_orgCaller {raw : String} {caller : Caller}
    (h : orgCaller env r now orgId raw = .ok caller) : Calls env r now orgId raw caller := by
  rw [orgCaller] at h
  split_ifs at h with hsecret
  · cases hverify : r.verifyOrgApiSecret env.platform raw with
    | none => rw [hverify] at h; cases h
    | some rec =>
      rw [hverify] at h
      dsimp only at h
      split_ifs at h with horg
      obtain rfl := Except.ok.inj h
      exact .secret rec hsecret hverify (not_not.mp horg)
  · cases hdecode : env.decodeV12Subject now raw with
    | none => rw [hdecode] at h; cases h
    | some found =>
      cases found with
      | none => rw [hdecode] at h; cases h
      | some subject =>
        rw [hdecode] at h
        dsimp only at h
        split_ifs at h with horg
        have horg := not_not.mp horg
        obtain ⟨claims,hclaims,hsubject⟩ := decodeV12Subject_eq_some hdecode
        have hjwt := Calls.jwt (r := r) claims subject (Bool.not_eq_true _ ▸ hsecret) hclaims
          hsubject horg
        cases hscope : subject.scope with
        | user =>
          rw [hscope] at h hjwt
          obtain rfl := Except.ok.inj h
          rw [horg]
          exact hjwt
        | apiKey =>
          rw [hscope] at h hjwt
          obtain rfl := Except.ok.inj h
          exact hjwt

/-- The header carries a credential of the caller. -/
def CalledBy (env : GatewayEnv) (r : Registry) (now : ℚ) (authorization : Option String)
    (orgId : String) (caller : Caller) : Prop :=
  ∃ raw, bearer env.platform authorization = .ok raw ∧ Calls env r now orgId raw caller

theorem calledBy_of_requireOrgCaller {caller : Caller}
    (h : requireOrgCaller env r now authorization orgId = .ok caller) :
    CalledBy env r now authorization orgId caller := by
  obtain ⟨raw,hraw,hcaller⟩ := bind_ok h
  exact ⟨raw,hraw,calls_of_orgCaller hcaller⟩

/-- A caller who is a user, and whose role as it is stored now has the permission. -/
structure Permitted (env : GatewayEnv) (r : Registry) (now : ℚ) (authorization : Option String)
    (orgId : String) (permission : Permission) (caller : Caller) (role : Role) : Prop where
  calledBy : CalledBy env r now authorization orgId caller
  user : caller.kind = .user
  stored : r.membership caller.sub orgId = some role
  granted : hasPermission role permission = true

theorem permitted_of_requirePermission {permission : Permission} {detail : String} {caller : Caller}
    (h : requirePermission env r now permission detail authorization orgId = .ok caller) :
    ∃ role, Permitted env r now authorization orgId permission caller role := by
  obtain ⟨user,huser,hcheck⟩ := bind_ok h
  obtain ⟨called,hcalled,hkind⟩ := bind_ok huser
  split_ifs at hkind with hk
  obtain rfl := Except.ok.inj hkind
  have hcalledBy := calledBy_of_requireOrgCaller hcalled
  split_ifs at hcheck with hsub
  · cases hrole : r.membership called.sub orgId with
    | none => rw [hrole] at hcheck; cases hcheck
    | some role =>
      rw [hrole] at hcheck
      dsimp only at hcheck
      split_ifs at hcheck with hgranted
      obtain rfl := Except.ok.inj hcheck
      exact ⟨role,hcalledBy,not_not.mp hk,hrole,Bool.not_eq_false _ ▸ hgranted⟩

end Callers

/-- What a successful request does: one case for each route. -/
inductive Outcome (env : GatewayEnv) (now : ℚ) (s : GatewayState) (req : OrgRequest) :
    GatewayState → OrgReply → Prop
  | getOrg (caller : Caller) (org : Organization) (hroute : req.route = .getOrg)
      (hcaller : CalledBy env s.registry now req.authorization req.orgId caller)
      (horg : s.registry.getOrganization req.orgId = some org) :
      Outcome env now s req s
        (.organization org (getSubscription s.limits s.registry req.orgId))
  | usage (caller : Caller) (hroute : req.route = .usage)
      (hcaller : CalledBy env s.registry now req.authorization req.orgId caller) :
      Outcome env now s req s (.usage (UsageTracker.totals s.tracker req.orgId).entries
        (UsageTracker.recent s.tracker req.orgId 50))
  | invoice (caller : Caller) (role : Role) (invoiceId : String) (period : Option String)
      (prices : List (String × ℚ)) (hroute : req.route = .invoice invoiceId period (some prices))
      (hcaller :
        Permitted env s.registry now req.authorization req.orgId .billingRead caller role) :
      Outcome env now s req
        { s with invoices := (fromUsageSnapshot s.invoices s.tracker now invoiceId req.orgId
          (period.getD "current") prices).1 }
        (.invoice (fromUsageSnapshot s.invoices s.tracker now invoiceId req.orgId
          (period.getD "current") prices).2)
  | tokensList (caller : Caller) (role : Role) (hroute : req.route = .tokensList)
      (hcaller : Permitted env s.registry now req.authorization req.orgId .orgManage caller role) :
      Outcome env now s req s (.tokens (s.registry.listOrgTokens req.orgId))
  | tokensCreate (caller : Caller) (role : Role) (tokenId secret : String) (s' : GatewayState)
      (token : Registry.NewToken) (hroute : req.route = .tokensCreate tokenId secret)
      (hcaller : Permitted env s.registry now req.authorization req.orgId .orgManage caller role)
      (hcreate : s.createOrgApiToken env now tokenId secret req.orgId "manual" = some (s',token)) :
      Outcome env now s req s' (.newToken token)
  | tokensDel (caller : Caller) (role : Role) (tokenId : String)
      (hroute : req.route = .tokensDel tokenId)
      (hcaller : Permitted env s.registry now req.authorization req.orgId .orgManage caller role)
      (hrevoked : (s.revokeOrgApiTokenForOrg req.orgId tokenId).2 = true) :
      Outcome env now s req (s.revokeOrgApiTokenForOrg req.orgId tokenId).1 .revoked
  | auditLog (caller : Caller) (hroute : req.route = .auditLog)
      (hcaller : CalledBy env s.registry now req.authorization req.orgId caller) :
      Outcome env now s req s (.events (s.audit.query (some req.orgId) 200))

section Handlers
variable {env : GatewayEnv} {now : ℚ} {s s' : GatewayState} {req : OrgRequest} {reply : OrgReply}

theorem outcome_of_handle (h : s.handle env now req = .ok (s',reply)) :
    req.orgId ≠ "" ∧ Outcome env now s req s' reply := by
  rw [GatewayState.handle] at h
  split_ifs at h with horg
  refine ⟨horg,?_⟩
  cases hroute : req.route with
  | getOrg =>
    rw [hroute] at h
    obtain ⟨caller,hcaller,hnext⟩ := bind_ok h
    cases hget : s.registry.getOrganization req.orgId with
    | none => rw [hget] at hnext; cases hnext
    | some org =>
      rw [hget] at hnext
      obtain ⟨rfl,rfl⟩ := Prod.mk.inj (Except.ok.inj hnext)
      exact .getOrg caller org hroute (calledBy_of_requireOrgCaller hcaller) hget
  | usage =>
    rw [hroute] at h
    obtain ⟨caller,hcaller,hnext⟩ := bind_ok h
    obtain ⟨rfl,rfl⟩ := Prod.mk.inj (Except.ok.inj hnext)
    exact .usage caller hroute (calledBy_of_requireOrgCaller hcaller)
  | invoice invoiceId period prices =>
    rw [hroute] at h
    obtain ⟨caller,hcaller,hnext⟩ := bind_ok h
    obtain ⟨role,hpermitted⟩ := permitted_of_requirePermission hcaller
    cases prices with
    | none => cases hnext
    | some prices =>
      obtain ⟨rfl,rfl⟩ := Prod.mk.inj (Except.ok.inj hnext)
      exact .invoice caller role invoiceId period prices hroute hpermitted
  | tokensList =>
    rw [hroute] at h
    obtain ⟨caller,hcaller,hnext⟩ := bind_ok h
    obtain ⟨role,hpermitted⟩ := permitted_of_requirePermission hcaller
    obtain ⟨rfl,rfl⟩ := Prod.mk.inj (Except.ok.inj hnext)
    exact .tokensList caller role hroute hpermitted
  | tokensCreate tokenId secret =>
    rw [hroute] at h
    obtain ⟨caller,hcaller,hnext⟩ := bind_ok h
    obtain ⟨role,hpermitted⟩ := permitted_of_requirePermission hcaller
    cases hcreate : s.createOrgApiToken env now tokenId secret req.orgId "manual" with
    | none => rw [hcreate] at hnext; cases hnext
    | some x =>
      rw [hcreate] at hnext
      obtain ⟨rfl,rfl⟩ := Prod.mk.inj (Except.ok.inj hnext)
      exact .tokensCreate caller role tokenId secret x.1 x.2 hroute hpermitted hcreate
  | tokensDel tokenId =>
    rw [hroute] at h
    obtain ⟨caller,hcaller,hnext⟩ := bind_ok h
    obtain ⟨role,hpermitted⟩ := permitted_of_requirePermission hcaller
    dsimp only at hnext
    split_ifs at hnext with hrevoked
    obtain ⟨rfl,rfl⟩ := Prod.mk.inj (Except.ok.inj hnext)
    exact .tokensDel caller role tokenId hroute hpermitted (Bool.not_eq_false _ ▸ hrevoked)
  | auditLog =>
    rw [hroute] at h
    obtain ⟨caller,hcaller,hnext⟩ := bind_ok h
    obtain ⟨rfl,rfl⟩ := Prod.mk.inj (Except.ok.inj hnext)
    exact .auditLog caller hroute (calledBy_of_requireOrgCaller hcaller)

/-- What a request comes to. But for rows of the audit log, a refused one changes nothing. Before
the handler, at most a row about no organisation is added. -/
inductive Served (env : GatewayEnv) (now : ℚ) (s : GatewayState) (req : OrgRequest) :
    GatewayState × Reply OrgReply → Prop
  | refused (log : AuditLog) (e : HttpError) :
      Served env now s req ({ s with audit := log },.error e)
  | answered (before after : AuditLog) (s' : GatewayState) (reply : OrgReply)
      (hlog : ∀ row ∈ before, row ∈ s.audit ∨ row.orgId = none) (horg : req.orgId ≠ "") (h : Outcome env now { s with audit := before } req s' reply) :
      Served env now s req ({ s' with audit := after },.ok reply)

theorem served_answered (log : AuditLog) (hlog : ∀ row ∈ log, row ∈ s.audit ∨ row.orgId = none)
    (orgId : Option String) (path : String) (latencyMs : ℚ) :
    Served env now s req (GatewayState.answered { s with audit := log } now orgId path latencyMs
      (GatewayState.handle env { s with audit := log } now req)) := by
  cases hreply : GatewayState.handle env { s with audit := log } now req with
  | error e =>
    rw [GatewayState.answered]
    split_ifs
    · exact .refused log e
    · cases orgId with
      | none => exact .refused log e
      | some orgId => exact .refused _ e
  | ok x =>
    obtain ⟨s',reply⟩ := x
    obtain ⟨horg,hout⟩ := outcome_of_handle hreply
    cases orgId with
    | none => exact .answered log s'.audit s' reply hlog horg hout
    | some orgId => exact .answered log _ s' reply hlog horg hout

theorem served_serve (env : GatewayEnv) (s : GatewayState) (now : ℚ) (admission : Admission)
    (req : OrgRequest) : Served env now s req (s.serve env now admission req) := by
  rw [GatewayState.serve]
  cases authenticateBearer env s.registry now req.authorization with
  | error e =>
    dsimp only
    split_ifs
    · exact .refused s.audit e
    · exact .refused _ e
  | ok res =>
    dsimp only
    cases res.tenant with
    | none =>
      refine served_answered _ (fun row hrow => ?_) none req.path 0
      cases List.mem_append.mp (mem_of_mem_truncated hrow) with
      | inl hold => exact Or.inl hold
      | inr hnew => exact Or.inr (by rw [List.mem_singleton.mp hnew])
    | some tenant =>
      cases admission with
      | rateLimited n => exact .refused _ _
      | concurrencyLimit reason => exact .refused _ _
      | admitted latencyMs =>
        exact served_answered s.audit (fun _ hrow => Or.inl hrow) (some tenant.orgId) req.path
          latencyMs

end Handlers

section Entry
variable (env : GatewayEnv) (s : GatewayState) (now : ℚ)

/-- The registry with a new organisation and its owner. -/
def withOwner (platform : Platform) (r : Registry) (draws : Draws) (req : BootstrapRequest) :
    Registry :=
  let x := r.createOrganization platform draws.orgId (req.name.getD "Acme") (req.slug.getD "acme")
  let y := x.1.createUser platform draws.userId draws.salt
    (req.ownerEmail.getD "owner@example.com") (req.ownerName.getD "Owner")
    (req.ownerPassword.getD "change-me-now")
  { y.1 with memberships := y.1.memberships.put {
      orgId := draws.orgId
      rows := Registry.withRole draws.userId .admin (y.1.members draws.orgId) } }

/-- The owner of a new organisation is known when it is added, and so is the organisation. -/
theorem addUserToOrg_owner (platform : Platform) (r : Registry) (draws : Draws)
    (req : BootstrapRequest) :
    ((r.createOrganization platform draws.orgId (req.name.getD "Acme")
        (req.slug.getD "acme")).1.createUser platform draws.userId draws.salt
      (req.ownerEmail.getD "owner@example.com") (req.ownerName.getD "Owner")
      (req.ownerPassword.getD "change-me-now")).1.addUserToOrg draws.userId draws.orgId .admin =
        some (withOwner platform r draws req) := by
  rw [Registry.addUserToOrg, if_pos]
  · rfl
  · constructor
    · rw [Registry.createUser, Table.get?_put]
      exact congrArg Option.isSome (if_pos rfl)
    · rw [Registry.createUser, Registry.createOrganization, Table.get?_put]
      exact congrArg Option.isSome (if_pos rfl)

theorem createOrgApiToken_owner (draws : Draws) (req : BootstrapRequest) :
    ∃ x, GatewayState.createOrgApiToken env
      { s with registry := withOwner env.platform s.registry draws req } now draws.tokenId
      draws.secret draws.orgId "primary" = some x := by
  have horg : ((withOwner env.platform s.registry draws req).orgs.get? draws.orgId).isSome := by
    rw [withOwner, Registry.createUser, Registry.createOrganization, Table.get?_put]
    exact congrArg Option.isSome (if_pos rfl)
  rw [GatewayState.createOrgApiToken, Registry.createOrgApiToken, if_pos horg]
  exact ⟨_,rfl⟩

/-- A bootstrap is forbidden, or makes the owner and then the first token. -/
theorem bootstrapOrg_cases (draws : Draws) (req : BootstrapRequest) :
    (∃ e, s.bootstrapOrg env now draws req = (s,.error e)) ∨
      ∃ (s' : GatewayState) (row : AuditRow) (reply : BootstrapReply),
        (GatewayState.createOrgApiToken env
          { s with registry := withOwner env.platform s.registry draws req } now draws.tokenId
          draws.secret draws.orgId "primary") = some (s',reply.apiKey) ∧
        reply.organization.orgId = draws.orgId ∧ reply.ownerUserId = draws.userId ∧
        s.bootstrapOrg env now draws req = (s'.appendAudit row,.ok reply) := by
  by_cases hforbidden : env.bootstrapToken = "" ∨
    req.authorization ≠ some ("Bearer " ++ env.bootstrapToken)
  · refine Or.inl ⟨{ status := 403, detail := "bootstrap forbidden" },?_⟩
    rw [GatewayState.bootstrapOrg, if_pos hforbidden]
  · have hadd := addUserToOrg_owner env.platform s.registry draws req
    have hcreate := createOrgApiToken_owner env s now draws req
    obtain ⟨⟨s',token⟩,htoken⟩ := hcreate
    rw [GatewayState.bootstrapOrg, if_neg hforbidden]
    dsimp only
    rw [hadd]
    dsimp only
    rw [htoken]
    exact Or.inr ⟨_,_,{ organization := _, ownerUserId := draws.userId, apiKey := token },rfl,rfl,
      rfl,rfl⟩

/-- A session is refused, or a token is issued for a user of the address who knows the password
and is a member of the organisation. -/
theorem session_cases (req : SessionRequest) :
    (∃ log e, s.session env now req = ({ s with audit := log },.error e)) ∨
      ∃ (user : User) (role : Role) (s' : GatewayState) (issued : Issued) (row : AuditRow),
        s.registry.getUserByEmail env.platform (req.email.getD "") = some user ∧
        Registry.verifyPassword env.platform user (req.password.getD "") = true ∧
        s.registry.membership user.userId (req.orgId.getD "") = some role ∧
        s.issueUserJwt env now user.userId (req.orgId.getD "") role.value none =
          some (s',issued) ∧
        s.session env now req = (s'.appendAudit row,
          .ok { accessToken := issued.1, expiresIn := env.jwtTtlSec }) := by
  rw [GatewayState.session]
  cases huser : (s.registry.getUserByEmail env.platform (req.email.getD "")).filter fun user =>
      Registry.verifyPassword env.platform user (req.password.getD "") with
  | none => exact Or.inl ⟨_,_,rfl⟩
  | some user =>
    obtain ⟨hemail,hpassword⟩ := Option.filter_eq_some_iff.mp huser
    dsimp only
    cases hrole : s.registry.membership user.userId (req.orgId.getD "") with
    | none => exact Or.inl ⟨s.audit,_,rfl⟩
    | some role =>
      dsimp only
      cases hissue : s.issueUserJwt env now user.userId (req.orgId.getD "") role.value none with
      | none => exact Or.inl ⟨s.audit,_,rfl⟩
      | some x =>
        exact Or.inr ⟨user,role,x.1,x.2,_,hemail,hpassword,hrole,hissue,rfl⟩

end Entry
end Arsonist.Gateway
