import Arsonist.Gateway.Scopes

/-! Isolation of tenants. A request to a route of an organisation that succeeds carries a credential
for this organisation only, shows what was recorded for it, and leaves the tokens, invoices and
memberships of all others as they are. -/
namespace Arsonist.Gateway
open Arsonist.Library Arsonist.Identity Arsonist.Audit Arsonist.Billing

namespace GatewayState
variable {env : GatewayEnv} {s s' : GatewayState} {now : ℚ}

section Untouched

/-- Nothing of another organisation has changed: its tokens, with the secrets they are verified by,
its invoices and its members. -/
structure Untouched (env : GatewayEnv) (orgId : String) (s s' : GatewayState) : Prop where
  tokens : ∀ tokenId rec, rec.orgId ≠ orgId →
    (s'.registry.apiTokens.get? tokenId = some rec ↔ s.registry.apiTokens.get? tokenId = some rec)
  secrets : ∀ secret rec, rec.orgId ≠ orgId →
    (s'.registry.verifyOrgApiSecret env.platform secret = some rec ↔
      s.registry.verifyOrgApiSecret env.platform secret = some rec)
  invoices : ∀ invoiceId doc, doc.orgId ≠ orgId →
    (s'.invoices.get? invoiceId = some doc ↔ s.invoices.get? invoiceId = some doc)
  memberships : s'.registry.memberships = s.registry.memberships

theorem Untouched.of_registry {orgId : String} (hregistry : s'.registry = s.registry)
    (hinvoices : ∀ invoiceId doc, doc.orgId ≠ orgId →
      (s'.invoices.get? invoiceId = some doc ↔ s.invoices.get? invoiceId = some doc)) :
    Untouched env orgId s s' := by
  refine ⟨?_,?_,hinvoices,congrArg Registry.memberships hregistry⟩
  · rw [hregistry]
    exact fun _ _ _ => Iff.rfl
  · rw [hregistry]
    exact fun _ _ _ => Iff.rfl

/-- The id of the token that the index leads to. -/
def indexed (s : GatewayState) (digest : String) : Option String :=
  (s.registry.tokenHashIndex.get? digest).map HashEntry.tokenId

theorem verify_iff (secret : String) (rec : ApiToken) :
    s.registry.verifyOrgApiSecret env.platform secret = some rec ↔
      Registry.isSecret secret = true ∧ rec.tokenId ≠ "" ∧
        s.indexed (env.platform.sha256 secret) = some rec.tokenId ∧
        s.registry.apiTokens.get? rec.tokenId = some rec ∧ rec.revoked = false := by
  rw [Registry.verifyOrgApiSecret, indexed]
  cases hsecret : Registry.isSecret secret with
  | false => simp
  | true =>
    cases hindex : s.registry.tokenHashIndex.get? (env.platform.sha256 secret) with
    | none => simp
    | some entry =>
      rw [if_neg (by decide), Option.map_some, Option.some.injEq]
      dsimp only
      constructor
      · intro h
        split_ifs at h with hid
        obtain ⟨hget,hlive⟩ := Option.filter_eq_some_iff.mp h
        have hkey : rec.tokenId = entry.tokenId := Table.key_of_get? hget
        rw [hkey]
        exact ⟨rfl,hid,rfl,hget,by simpa using hlive⟩
      · rintro ⟨-,hne,hid,hget,hlive⟩
        rw [hid, if_neg hne, hget]
        exact Option.filter_some_pos (by simpa using hlive)

/-- What the index says about the tokens of others decides which of their secrets are verified. -/
theorem Untouched.of_indexed {orgId : String}
    (htokens : ∀ tokenId rec, rec.orgId ≠ orgId →
      (s'.registry.apiTokens.get? tokenId = some rec ↔
        s.registry.apiTokens.get? tokenId = some rec))
    (hindexed : ∀ digest rec, s.registry.apiTokens.get? rec.tokenId = some rec →
      rec.orgId ≠ orgId →
      (s'.indexed digest = some rec.tokenId ↔ s.indexed digest = some rec.tokenId))
    (hinvoices : s'.invoices = s.invoices)
    (hmemberships : s'.registry.memberships = s.registry.memberships) :
    Untouched env orgId s s' := by
  refine ⟨htokens,fun secret rec horg => ?_,fun _ _ _ => by rw [hinvoices],hmemberships⟩
  rw [verify_iff, verify_iff, htokens rec.tokenId rec horg]
  constructor
  · rintro ⟨hsecret,hne,hid,hget,hlive⟩
    exact ⟨hsecret,hne,(hindexed _ rec hget horg).mp hid,hget,hlive⟩
  · rintro ⟨hsecret,hne,hid,hget,hlive⟩
    exact ⟨hsecret,hne,(hindexed _ rec hget horg).mpr hid,hget,hlive⟩

/-- A new token takes neither the id nor the digest of another one. -/
theorem untouched_create (h : s.Sound env) (hsha : Function.Injective env.platform.sha256)
    {tokenId secret orgId name : String} {token : Registry.NewToken}
    (hdrawn : Drawn s tokenId secret)
    (hcreate : s.createOrgApiToken env now tokenId secret orgId name = some (s',token)) :
    Untouched env orgId s s' := by
  obtain ⟨new,rfl,rfl,hnew,-,rfl⟩ := create_cases hcreate
  refine .of_indexed (fun id rec hother => ?_) (fun digest rec hget hother => ?_) rfl rfl
  · rw [get?_withToken]
    split_ifs with hid
    · subst hid
      rw [hdrawn.unused]
      refine iff_of_false (fun heq => hother ?_) (by simp)
      exact congrArg ApiToken.orgId (Option.some.inj heq).symm
    · rfl
  · rw [indexed, index_withToken, indexed]
    split_ifs with hdigest
    · refine iff_of_false (fun heq => ?_) (fun heq => ?_)
      · have hid : new.tokenId = rec.tokenId := Option.some.inj heq
        rw [← hid, hdrawn.unused] at hget
        cases hget
      · obtain ⟨entry,hentry,-⟩ := Option.map_eq_some_iff.mp heq
        obtain ⟨found,hfound,hhash⟩ := h.index digest entry hentry
        obtain ⟨other,hmem,hsecret⟩ := h.given _ found hfound
        have hsame : env.platform.sha256 other = env.platform.sha256 secret :=
          hsecret.trans (hhash.trans (hdigest.trans hnew))
        exact hdrawn.unknown _ hmem (hsha hsame)
    · rfl

/-- The digest that a revocation takes out of the index led to the revoked token. -/
theorem untouched_revoke (h : s.Sound env) {rec : ApiToken}
    (hrec : s.registry.apiTokens.get? rec.tokenId = some rec) :
    Untouched env rec.orgId s (s.withRevoked rec) := by
  refine .of_indexed (fun id old hother => ?_) (fun digest old hold hother => ?_) rfl rfl
  · rw [get?_withRevoked]
    split_ifs with hid
    · subst hid
      rw [hrec]
      refine iff_of_false (fun heq => hother ?_) (fun heq => hother ?_)
      · obtain rfl := Option.some.inj heq
        rfl
      · obtain rfl := Option.some.inj heq
        rfl
    · rfl
  · rw [indexed, index_withRevoked, indexed]
    split_ifs with hdigest
    · refine iff_of_false (by simp) (fun heq => hother ?_)
      obtain ⟨entry,hentry,hid⟩ := Option.map_eq_some_iff.mp heq
      obtain ⟨found,hfound,hhash⟩ := h.index digest entry hentry
      have hsame : entry.tokenId = rec.tokenId :=
        h.hashes _ found _ rec hfound hrec (hhash.trans hdigest)
      rw [← hid, hsame, hrec] at hold
      exact congrArg ApiToken.orgId (Option.some.inj hold).symm
    · rfl

end Untouched

section Recorded

/-- The rows that were recorded for an organisation. -/
def recordedFor (s : GatewayState) (orgId : String) : List UsageRow :=
  (s.given.usage.filter fun x => x.1 = orgId).map Prod.snd

/-- The rows that are kept for an organisation were recorded for it. -/
def Recorded (s : GatewayState) : Prop :=
  ∀ orgId, (UsageTracker.rows s.tracker orgId).Sublist (s.recordedFor orgId)

structure SameUsage (s s' : GatewayState) : Prop where
  tracker : s'.tracker = s.tracker
  usage : s'.given.usage = s.given.usage

theorem Recorded.of_same (h : s.Recorded) (hsame : SameUsage s s') : s'.Recorded := by
  intro orgId
  rw [recordedFor, hsame.tracker, hsame.usage]
  exact h orgId

theorem recordedFor_record (orgId other : String) (row : UsageRow) :
    (s.record orgId row).recordedFor other =
      s.recordedFor other ++ if other = orgId then [row] else [] := by
  rw [recordedFor, GatewayState.record]
  dsimp only
  rw [List.filter_append, List.map_append]
  by_cases hsame : other = orgId
  · simp [recordedFor, hsame]
  · simp [recordedFor, hsame, Ne.symm hsame]

theorem Recorded.record (h : s.Recorded) (orgId : String) (row : UsageRow) :
    (s.record orgId row).Recorded := by
  intro other
  rw [recordedFor_record, GatewayState.record]
  dsimp only
  rw [UsageTracker.rows_record]
  split_ifs with hsame
  · subst hsame
    exact (truncated_sublist _ _).trans ((h other).append (List.Sublist.refl _))
  · rw [List.append_nil]
    exact h other

theorem sameUsage_create {tokenId secret orgId name : String} {token : Registry.NewToken}
    (hcreate : s.createOrgApiToken env now tokenId secret orgId name = some (s',token)) :
    SameUsage s s' := by
  obtain ⟨rec,-,-,-,-,rfl⟩ := create_cases hcreate
  exact ⟨rfl,rfl⟩

theorem sameUsage_issueUserJwt {userId orgId role : String} {ttlSec : Option ℤ}
    {x : GatewayState × Issued}
    (hissue : s.issueUserJwt env now userId orgId role ttlSec = some x) : SameUsage s x.1 := by
  obtain ⟨issued,-,rfl⟩ := Option.map_eq_some_iff.mp hissue
  exact ⟨rfl,rfl⟩

theorem sameUsage_outcome {req : OrgRequest} {reply : OrgReply}
    (h : Outcome env now s req s' reply) : SameUsage s s' := by
  cases h with
  | tokensCreate caller role tokenId secret s' token hroute hcaller hcreate =>
    exact sameUsage_create hcreate
  | _ => exact ⟨rfl,rfl⟩

theorem sameUsage_serve (env : GatewayEnv) (s : GatewayState) (now : ℚ) (admission : Admission)
    (req : OrgRequest) : SameUsage s (s.serve env now admission req).1 := by
  have hserved := served_serve env s now admission req
  generalize s.serve env now admission req = x at hserved ⊢
  cases hserved with
  | refused log e => exact ⟨rfl,rfl⟩
  | answered before after s' reply hlog horg hout =>
    obtain ⟨htracker,husage⟩ := sameUsage_outcome hout
    exact ⟨htracker,husage⟩

theorem recorded_exec (c : GatewayCall) (h : s.Recorded) : (s.exec env c).Recorded := by
  cases c with
  | record orgId row => exact h.record orgId row
  | bootstrapOrg now draws req =>
    refine h.of_same ?_
    rw [exec]
    obtain ⟨e,heq⟩ | ⟨s',row,reply,hcreate,-,-,heq⟩ := bootstrapOrg_cases env s now draws req
    · rw [heq]
      exact ⟨rfl,rfl⟩
    · rw [heq]
      obtain ⟨htracker,husage⟩ := sameUsage_create hcreate
      exact ⟨htracker,husage⟩
  | session now req =>
    refine h.of_same ?_
    rw [exec]
    obtain ⟨log,e,heq⟩ | ⟨user,role,s',issued,row,-,-,-,hissue,heq⟩ := session_cases env s now req
    · rw [heq]
      exact ⟨rfl,rfl⟩
    · rw [heq]
      obtain ⟨htracker,husage⟩ := sameUsage_issueUserJwt hissue
      exact ⟨htracker,husage⟩
  | serve now admission req => exact h.of_same (sameUsage_serve env s now admission req)
  | createOrgApiToken now tokenId secret orgId name =>
    rw [exec]
    cases hcreate : s.createOrgApiToken env now tokenId secret orgId name with
    | none => exact h
    | some x => exact h.of_same (sameUsage_create hcreate)
  | issueUserJwt now userId orgId role ttlSec =>
    rw [exec]
    cases hissue : s.issueUserJwt env now userId orgId role ttlSec with
    | none => exact h
    | some x => exact h.of_same (sameUsage_issueUserJwt hissue)
  | issueApiKeyJwt now orgId tokenId ttlSec =>
    rw [exec]
    cases hissue : s.issueApiKeyJwt env now orgId tokenId ttlSec with
    | none => exact h
    | some x =>
      obtain ⟨issued,-,rfl⟩ := Option.map_eq_some_iff.mp hissue
      exact h.of_same ⟨rfl,rfl⟩
  | _ => exact h.of_same ⟨rfl,rfl⟩

theorem recorded_run (env : GatewayEnv) (calls : List GatewayCall) :
    (run (exec env) {} calls).Recorded := by
  have hstart : Recorded {} := fun orgId => List.nil_sublist _
  exact run_always (fun _ c h => recorded_exec c h) hstart calls

end Recorded

/-- The amount of a metric in some of the rows that were recorded for an organisation. -/
def Billed (s : GatewayState) (orgId metric : String) (amount : ℚ) : Prop :=
  ∃ rows, rows.Sublist (s.recordedFor orgId) ∧ amount = UsageTracker.amountOf rows metric

/-- What a reply shows is about the organisation. -/
def ShownFor (orgId : String) (s s' : GatewayState) : OrgReply → Prop
  | .organization org subscription => org.orgId = orgId ∧ subscription.orgId = orgId
  | .usage totals recent =>
    (∀ total ∈ totals, s.Billed orgId total.metric total.amount) ∧
      recent.Sublist (s.recordedFor orgId)
  | .invoice doc =>
    s'.invoices.get? doc.invoiceId = some doc ∧ doc.orgId = orgId ∧
      ∀ line ∈ doc.lineItems, line = minimumLine ∨ s.Billed orgId line.metric line.amount
  | .tokens views =>
    ∀ view ∈ views, ∃ rec, s.registry.apiTokens.get? view.tokenId = some rec ∧
      rec.orgId = orgId ∧ view = Registry.viewOf rec
  | .newToken token =>
    ∃ rec, s'.registry.apiTokens.get? token.tokenId = some rec ∧ rec.orgId = orgId
  | .revoked => True
  | .events rows => ∀ row ∈ rows, row ∈ s.audit ∧ row.orgId = some orgId

/-- The caller is a user, with a JWT, whose role in the organisation may manage it. -/
def Managed (env : GatewayEnv) (s : GatewayState) (now : ℚ) (authorization : Option String)
    (orgId : String) : Prop :=
  ∃ raw claims subject role, bearer env.platform authorization = .ok raw ∧
    (raw,claims) ∈ s.given.jwts ∧ Alive now claims ∧ subjectOf claims = some subject ∧
    subject.scope = .user ∧ subject.orgId = orgId ∧
    s.registry.membership subject.sub orgId = some role ∧ hasPermission role .orgManage = true

/-- A route that lists, makes or revokes tokens. -/
def ManagesTokens : OrgRoute → Prop
  | .tokensList => True
  | .tokensCreate _ _ => True
  | .tokensDel _ => True
  | _ => False

/-- What isolation means for a request that succeeds. -/
structure Isolated (env : GatewayEnv) (s : GatewayState) (now : ℚ) (req : OrgRequest)
    (s' : GatewayState) (reply : OrgReply) : Prop where
  credential : ∃ raw, bearer env.platform req.authorization = .ok raw ∧
    ∀ orgId, s.Scoped now raw orgId ↔ orgId = req.orgId
  shown : ShownFor req.orgId s s' reply
  untouched : Untouched env req.orgId s s'
  managed : ManagesTokens req.route → Managed env s now req.authorization req.orgId

section Replies

theorem billed_rows (h : s.Recorded) (orgId metric : String) :
    s.Billed orgId metric (UsageTracker.amountOf (UsageTracker.rows s.tracker orgId) metric) :=
  ⟨_,h orgId,rfl⟩

theorem shownFor_usage (h : s.Recorded) (orgId : String) :
    ShownFor orgId s s (.usage (UsageTracker.totals s.tracker orgId).entries
      (UsageTracker.recent s.tracker orgId 50)) := by
  constructor
  · intro total htotal
    have hamount : total.amount =
        UsageTracker.amountOf (UsageTracker.rows s.tracker orgId) total.metric := by
      rw [← get?_totals]
      have hget : (UsageTracker.totals s.tracker orgId).get? total.metric = some total :=
        Table.get?_of_mem htotal
      rw [hget]
      rfl
    rw [hamount]
    exact billed_rows h orgId total.metric
  · exact (lastSlice_sublist _ _).trans (h orgId)

theorem shownFor_invoice (h : s.Recorded) (now : ℚ) (invoiceId orgId period : String)
    (prices : List (String × ℚ))
    (hinvoices : s'.invoices =
      (fromUsageSnapshot s.invoices s.tracker now invoiceId orgId period prices).1) :
    ShownFor orgId s s'
      (.invoice (fromUsageSnapshot s.invoices s.tracker now invoiceId orgId period prices).2) := by
  refine ⟨?_,rfl,fun line hline => ?_⟩
  · rw [hinvoices]
    exact (Table.get?_put _ _ _).trans (if_pos rfl)
  · obtain hminimum | hamount := of_mem_usageLines hline
    · exact Or.inl hminimum
    · rw [hamount]
      exact Or.inr (billed_rows h orgId line.metric)

theorem shownFor_tokens (s : GatewayState) (orgId : String) :
    ShownFor orgId s s (.tokens (s.registry.listOrgTokens orgId)) := by
  intro view hview
  obtain ⟨rec,hrec,rfl⟩ := List.mem_map.mp hview
  obtain ⟨hmem,horg⟩ := List.mem_filter.mp hrec
  exact ⟨rec,Table.get?_of_mem hmem,of_decide_eq_true horg,rfl⟩

theorem shownFor_newToken {tokenId secret orgId name : String} {token : Registry.NewToken}
    (hcreate : s.createOrgApiToken env now tokenId secret orgId name = some (s',token)) :
    ShownFor orgId s s' (.newToken token) := by
  obtain ⟨rec,rfl,horg,-,hid,rfl⟩ := create_cases hcreate
  refine ⟨rec,?_,horg⟩
  rw [hid, get?_withToken, if_pos rfl]

/-- A new invoice takes the place of no other one. -/
theorem untouched_invoice (env : GatewayEnv) (now : ℚ) {invoiceId : String}
    (hfresh : s.invoices.get? invoiceId = none) (orgId period : String)
    (prices : List (String × ℚ)) :
    Untouched env orgId s { s with invoices :=
      (fromUsageSnapshot s.invoices s.tracker now invoiceId orgId period prices).1 } := by
  refine .of_registry rfl fun id doc hother => ?_
  dsimp only [fromUsageSnapshot, generate]
  rw [Table.get?_put]
  change (if id = invoiceId then _ else _ : Option Invoice) = some doc ↔ _
  split_ifs with hid
  · subst hid
    rw [hfresh]
    refine iff_of_false (fun heq => hother ?_) (by simp)
    obtain rfl := Option.some.inj heq
    rfl
  · rfl

/-- A permitted user has a JWT of the gateway. -/
theorem managed_of_permitted (h : s.Sound env) (hideal : env.Ideal) {authorization : Option String}
    (hgenuine : Genuine env s now authorization) {orgId : String} {caller : Caller} {role : Role}
    (hpermitted : Permitted env s.registry now authorization orgId .orgManage caller role) :
    Managed env s now authorization orgId := by
  obtain ⟨⟨raw,hraw,hcalls⟩,huser,hstored,hgranted⟩ := hpermitted
  cases hcalls with
  | secret rec hsecret hverify horg => cases huser
  | jwt claims subject hword hdecode hsubject horg =>
    obtain ⟨hmem,halive⟩ := issued_of_decode h hideal hgenuine hraw hdecode hsubject
    refine ⟨raw,claims,subject,role,hraw,hmem,halive,hsubject,?_,horg,hstored,hgranted⟩
    dsimp only at huser
    cases hscope : subject.scope with
    | user => rfl
    | apiKey => rw [hscope] at huser; cases huser

end Replies

section Requests

/-- Each route isolates. The audit log does not matter. -/
theorem isolated_outcome (h : s.Sound env) (hrecorded : s.Recorded) (hideal : env.Ideal)
    (hsha : Function.Injective env.platform.sha256) {req : OrgRequest} (hne : req.orgId ≠ "")
    (hfresh : req.Fresh s) (hgenuine : Genuine env s now req.authorization) {before : AuditLog}
    (hlog : ∀ row ∈ before, row ∈ s.audit ∨ row.orgId = none) (after : AuditLog) {reply : OrgReply}
    (hout : Outcome env now { s with audit := before } req s' reply) :
    Isolated env s now req { s' with audit := after } reply := by
  have hsame : Untouched env req.orgId s { s with audit := after } :=
    .of_registry rfl fun _ _ _ => Iff.rfl
  have hbefore : Sound env { s with audit := before } := h.of_same ⟨rfl,rfl,rfl,rfl,rfl⟩
  have hscoped := fun {caller : Caller}
    (hcaller : CalledBy env s.registry now req.authorization req.orgId caller) =>
    scoped_of_calledBy h hideal hsha hgenuine hcaller
  cases hout with
  | getOrg caller org hroute hcaller horg =>
    refine ⟨hscoped hcaller,⟨Table.key_of_get? horg,rfl⟩,hsame,fun hmanages => ?_⟩
    rw [hroute] at hmanages
    exact hmanages.elim
  | usage caller hroute hcaller =>
    refine ⟨hscoped hcaller,shownFor_usage hrecorded req.orgId,hsame,fun hmanages => ?_⟩
    rw [hroute] at hmanages
    exact hmanages.elim
  | invoice caller role invoiceId period prices hroute hcaller =>
    rw [OrgRequest.Fresh, hroute] at hfresh
    obtain ⟨htokens,hsecrets,hinvoices,hmemberships⟩ :=
      untouched_invoice env now hfresh req.orgId (period.getD "current") prices
    refine ⟨hscoped hcaller.calledBy,shownFor_invoice hrecorded _ _ _ _ _ rfl,
      ⟨htokens,hsecrets,hinvoices,hmemberships⟩,fun hmanages => ?_⟩
    rw [hroute] at hmanages
    exact hmanages.elim
  | tokensList caller role hroute hcaller =>
    exact ⟨hscoped hcaller.calledBy,shownFor_tokens s req.orgId,hsame,
      fun _ => managed_of_permitted h hideal hgenuine hcaller⟩
  | tokensCreate caller role tokenId secret s' token hroute hcaller hcreate =>
    rw [OrgRequest.Fresh, hroute] at hfresh
    obtain ⟨htokens,hsecrets,hinvoices,hmemberships⟩ :=
      untouched_create hbefore hsha (drawn_of_same hfresh rfl rfl) hcreate
    obtain ⟨rec,hget,horg⟩ := shownFor_newToken hcreate
    exact ⟨hscoped hcaller.calledBy,⟨rec,hget,horg⟩,
      ⟨htokens,hsecrets,hinvoices,hmemberships⟩,
      fun _ => managed_of_permitted h hideal hgenuine hcaller⟩
  | tokensDel caller role tokenId hroute hcaller hrevoked =>
    obtain ⟨-,hrefused⟩ | ⟨rec,hget,horg,heq⟩ :=
      revokeForOrg_cases { s with audit := before } req.orgId tokenId
    · rw [hrefused] at hrevoked
      cases hrevoked
    · obtain rfl : rec.tokenId = tokenId := Table.key_of_get? hget
      obtain ⟨htokens,hsecrets,hinvoices,hmemberships⟩ := untouched_revoke hbefore hget
      rw [heq, revoke_of_known hget]
      rw [horg] at htokens hsecrets hinvoices
      exact ⟨hscoped hcaller.calledBy,trivial,⟨htokens,hsecrets,hinvoices,hmemberships⟩,
        fun _ => managed_of_permitted h hideal hgenuine hcaller⟩
  | auditLog caller hroute hcaller =>
    refine ⟨hscoped hcaller,fun row hrow => ?_,hsame,fun hmanages => ?_⟩
    · obtain ⟨hmem,horg⟩ := AuditLog.of_mem_query _ hne hrow
      cases hlog row hmem with
      | inl hkept => exact ⟨hkept,horg⟩
      | inr hnone => rw [hnone] at horg; cases horg
    · rw [hroute] at hmanages
      exact hmanages.elim

/-- After a fresh run, every request to a route of an organisation that succeeds is isolated. -/
theorem isolated (hideal : env.Ideal) (hsha : Function.Injective env.platform.sha256)
    (calls : List GatewayCall) (hcalls : FreshRun env calls) (now : ℚ) (admission : Admission)
    (req : OrgRequest) (reply : OrgReply) (hfresh : req.Fresh (run (exec env) {} calls))
    (hgenuine : Genuine env (run (exec env) {} calls) now req.authorization)
    (h : ((run (exec env) {} calls).serve env now admission req).2 = .ok reply) :
    Isolated env (run (exec env) {} calls) now req
      ((run (exec env) {} calls).serve env now admission req).1 reply := by
  have hsound := sound_run hsha hcalls
  have hrecorded := recorded_run env calls
  generalize run (exec env) {} calls = s at *
  have hserved := served_serve env s now admission req
  generalize s.serve env now admission req = x at *
  cases hserved with
  | refused log e => cases h
  | answered before after s' reply' hlog hne hout =>
    obtain rfl := Except.ok.inj h
    exact isolated_outcome hsound hrecorded hideal hsha hne hfresh hgenuine hlog after hout

/-- An organisation whose owner has a session. -/
def loggedIn : List GatewayCall :=
  [.bootstrapOrg 0
     { orgId := "org", userId := "usr", salt := "salt", tokenId := "atk", secret := "sk_1" }
     { authorization := some "Bearer boot" },
   .session 0 {
     email := some "owner@example.com"
     password := some "change-me-now"
     orgId := some "org" }]

/-- The JWT of the owner. -/
def ownerJwt : Issued :=
  (Jwt.clear.encode (userClaims 0 3600 "usr" "org" "admin") "secret",
    userClaims 0 3600 "usr" "org" "admin")

/-- The owner asks for the tokens of the organisation. -/
def listing : OrgRequest :=
  { orgId := "org", authorization := some ("Bearer " ++ ownerJwt.1), route := .tokensList }

theorem isolated_listing : ∃ reply,
    Isolated clearEnv (run (exec clearEnv) {} loggedIn) 1 listing
      ((run (exec clearEnv) {} loggedIn).serve clearEnv 1 (.admitted 0) listing).1 reply := by
  have hcalls : FreshRun clearEnv loggedIn := ⟨by decide +kernel,trivial,trivial⟩
  have hmem : ownerJwt ∈ (run (exec clearEnv) {} loggedIn).given.jwts := by
    have hjwts : (run (exec clearEnv) {} loggedIn).given.jwts = [ownerJwt] := rfl
    rw [hjwts]
    exact List.mem_singleton_self _
  have hgenuine : Genuine clearEnv (run (exec clearEnv) {} loggedIn) 1 listing.authorization :=
    genuine_issued (sound_run Function.injective_id hcalls) (ideal_clear "secret") hmem
  have hanswers : ((run (exec clearEnv) {} loggedIn).serve clearEnv 1 (.admitted 0)
      listing).2.toOption.isSome = true := by decide +kernel
  cases hreply : ((run (exec clearEnv) {} loggedIn).serve clearEnv 1 (.admitted 0) listing).2 with
  | error e => rw [hreply] at hanswers; cases hanswers
  | ok reply =>
    exact ⟨reply,isolated (ideal_clear "secret") Function.injective_id loggedIn hcalls 1
      (.admitted 0) listing reply trivial hgenuine hreply⟩

end Requests

end GatewayState
end Arsonist.Gateway
