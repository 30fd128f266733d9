import Arsonist.Gateway.Credentials

/-! Owners and their sessions. A session looks a user up by e-mail address among the users of all
organisations, and takes the first one. -/
namespace Arsonist.Gateway
open Arsonist.Library Arsonist.Identity

/-- A bootstrap of an organisation. -/
structure Bootstrap where
  now : ℚ := 0
  draws : Draws
  req : BootstrapRequest

namespace Bootstrap
variable (platform : Platform) (b : Bootstrap)

def email : String := b.req.ownerEmail.getD "owner@example.com"

def password : String := b.req.ownerPassword.getD "change-me-now"

/-- The user that is made for the owner. -/
def owner : User where
  userId := b.draws.userId
  email := Registry.normalized platform b.email
  displayName := b.req.ownerName.getD "Owner"
  passwordHash := Registry.hashPassword platform b.draws.salt b.password

/-- The session that the owner asks for. -/
def login : SessionRequest where
  email := some b.email
  password := some b.password
  orgId := some b.draws.orgId

/-- The members of the organisation: the owner. -/
def members : OrgMembers where
  orgId := b.draws.orgId
  rows := [{ userId := b.draws.userId, role := .admin }]

end Bootstrap

namespace GatewayState

def bootstrap (env : GatewayEnv) (s : GatewayState) (b : Bootstrap) : GatewayState :=
  (s.bootstrapOrg env b.now b.draws b.req).1

def Succeeds (env : GatewayEnv) (s : GatewayState) (b : Bootstrap) : Prop :=
  ∃ reply, (s.bootstrapOrg env b.now b.draws b.req).2 = .ok reply

/-- The owner of a bootstrap gets a token for the organisation. -/
def LogsIn (env : GatewayEnv) (s : GatewayState) (now : ℚ) (b : Bootstrap) : Prop :=
  ∃ (iat ttl : ℤ) (role : String) (expiresIn : ℤ), (s.session env now b.login).2 = .ok {
    accessToken := env.jwt.encode (userClaims iat ttl b.draws.userId b.draws.orgId role)
      env.jwtSecret
    expiresIn := expiresIn }

/-- The ids of some bootstraps, drawn at random, and their salts, in hexadecimal digits. -/
structure DrawnApart (bs : List Bootstrap) : Prop where
  orgIds : (bs.map fun b => b.draws.orgId).Nodup
  userIds : (bs.map fun b => b.draws.userId).Nodup
  salts : ∀ b ∈ bs, '$' ∉ b.draws.salt.toList

/-- What some bootstraps leave behind: their owners, in order, each the only member of its
organisation. -/
structure Bootstrapped (platform : Platform) (bs : List Bootstrap) (s : GatewayState) : Prop where
  users : s.registry.users.entries = bs.map (Bootstrap.owner platform)
  members : ∀ b ∈ bs, s.registry.memberships.get? b.draws.orgId = some b.members
  others : ∀ orgId, (∀ b ∈ bs, b.draws.orgId ≠ orgId) →
    s.registry.memberships.get? orgId = none

variable {env : GatewayEnv} {s : GatewayState} {b : Bootstrap} {bs : List Bootstrap}

section Run

theorem key_orgMembers (m : OrgMembers) : Keyed.key m = m.orgId := rfl

/-- A successful bootstrap makes the owner, and the organisation with the owner in it. -/
theorem registry_bootstrap (h : Succeeds env s b) :
    (s.bootstrap env b).registry.users =
        (withOwner env.platform s.registry b.draws b.req).users ∧
      (s.bootstrap env b).registry.memberships =
        (withOwner env.platform s.registry b.draws b.req).memberships := by
  obtain ⟨reply,hreply⟩ := h
  rw [bootstrap]
  obtain ⟨e,heq⟩ | ⟨s',row,reply',hcreate,-,-,heq⟩ :=
    bootstrapOrg_cases env s b.now b.draws b.req
  · rw [heq] at hreply
    cases hreply
  · rw [heq]
    obtain ⟨rec,-,-,-,-,rfl⟩ := create_cases hcreate
    exact ⟨rfl,rfl⟩

theorem members_withOwner (platform : Platform) (r : Registry) (b : Bootstrap)
    (hnone : r.memberships.get? b.draws.orgId = none) (orgId : String) :
    (withOwner platform r b.draws b.req).memberships.get? orgId =
      if orgId = b.draws.orgId then some b.members else r.memberships.get? orgId := by
  have hrows : (withOwner platform r b.draws b.req).memberships =
      (r.memberships.put { orgId := b.draws.orgId }).put b.members := by
    simp [withOwner, Registry.createUser, Registry.createOrganization, Registry.members, hnone,
      Table.get?_put, key_orgMembers, Registry.withRole, Bootstrap.members]
  rw [hrows, Table.put_put r.memberships { orgId := b.draws.orgId } b.members rfl, Table.get?_put]
  rfl

/-- A bootstrap under new ids adds its owner to those before it. -/
theorem Bootstrapped.concat (h : Bootstrapped env.platform bs s) (hok : Succeeds env s b)
    (horg : b.draws.orgId ∉ bs.map fun b => b.draws.orgId)
    (huser : b.draws.userId ∉ bs.map fun b => b.draws.userId) :
    Bootstrapped env.platform (bs ++ [b]) (s.bootstrap env b) := by
  obtain ⟨husers,hmemberships⟩ := registry_bootstrap hok
  have hnone : s.registry.memberships.get? b.draws.orgId = none := by
    refine h.others _ fun a ha heq => horg ?_
    exact List.mem_map.mpr ⟨a,ha,heq⟩
  refine ⟨?_,?_,?_⟩
  · have hnew : Keyed.key (b.owner env.platform) ∉ s.registry.users.entries.map Keyed.key := by
      rw [h.users, List.map_map]
      exact huser
    rw [husers, List.map_append, ← h.users]
    exact Table.entries_put_of_not_mem hnew
  · intro a ha
    rw [hmemberships, members_withOwner _ _ _ hnone]
    cases List.mem_append.mp ha with
    | inl hold =>
      rw [if_neg, h.members a hold]
      exact fun heq => horg (List.mem_map.mpr ⟨a,hold,heq⟩)
    | inr hnew =>
      rw [List.mem_singleton.mp hnew, if_pos rfl]
  · intro orgId hother
    rw [hmemberships, members_withOwner _ _ _ hnone, if_neg]
    · exact h.others orgId fun a ha => hother a (List.mem_append_left _ ha)
    · exact (hother b (List.mem_append_right _ (List.mem_singleton_self b))).symm

theorem bootstrapped_run (hok : Along (bootstrap env) (Succeeds env) {} bs)
    (hdrawn : DrawnApart bs) : Bootstrapped env.platform bs (run (bootstrap env) {} bs) := by
  induction bs using List.reverseRecOn with
  | nil => exact ⟨rfl,fun b hb => absurd hb List.not_mem_nil,fun orgId _ => rfl⟩
  | append_singleton bs b ih =>
    obtain ⟨horgs,husers,hsalts⟩ := hdrawn
    rw [List.map_append, List.map_singleton] at horgs husers
    obtain ⟨horgs,-,horg⟩ := List.nodup_append.mp horgs
    obtain ⟨husers,-,huser⟩ := List.nodup_append.mp husers
    rw [along_append] at hok
    rw [run_concat]
    refine (ih hok.1 ⟨horgs,husers,fun a ha => hsalts a (List.mem_append_left _ ha)⟩).concat
      hok.2.1 (fun hmem => ?_) (fun hmem => ?_)
    · exact horg _ hmem _ (List.mem_singleton_self _) rfl
    · exact huser _ hmem _ (List.mem_singleton_self _) rfl

end Run

section Login

theorem hash_split {salt : String} (hsalt : '$' ∉ salt.toList) (platform : Platform)
    (password : String) :
    Registry.splitHash (Registry.hashPassword platform salt password) =
      (salt,platform.sha256 (salt ++ password)) := by
  have hne : ∀ c ∈ salt.toList, decide (c ≠ '$') = true := by
    intro c hc
    refine decide_eq_true ?_
    rintro rfl
    exact hsalt hc
  have htext : (Registry.hashPassword platform salt password).toList =
      salt.toList ++ '$' :: (platform.sha256 (salt ++ password)).toList := by
    simp [Registry.hashPassword]
  rw [Registry.splitHash, htext, List.takeWhile_append_of_pos hne, List.dropWhile_append_of_pos hne]
  simp

/-- The owner's password is the one of the bootstrap. -/
theorem verifyPassword_owner (platform : Platform) (hsalt : '$' ∉ b.draws.salt.toList) :
    Registry.verifyPassword platform (b.owner platform) b.password = true := by
  have hdollar : '$' ∈ (b.owner platform).passwordHash.toList := by
    simp [Bootstrap.owner, Registry.hashPassword]
  refine decide_eq_true ⟨hdollar,?_⟩
  rw [Bootstrap.owner, hash_split hsalt]

/-- The first owner with the address is found. -/
theorem getUserByEmail_first (h : Bootstrapped env.platform bs s) {p q : List Bootstrap}
    (hbs : bs = p ++ b :: q) (hfirst : ∀ a ∈ p, Registry.normalized env.platform a.email ≠
      Registry.normalized env.platform b.email) :
    s.registry.getUserByEmail env.platform b.email = some (b.owner env.platform) := by
  have hnone : (p.map (Bootstrap.owner env.platform)).find? (fun u =>
      u.email = Registry.normalized env.platform b.email) = none := by
    refine List.find?_eq_none.mpr ?_
    intro u hu
    obtain ⟨a,ha,rfl⟩ := List.mem_map.mp hu
    exact fun heq => hfirst a ha (of_decide_eq_true heq)
  rw [Registry.getUserByEmail, h.users, hbs, List.map_append, List.find?_append, hnone,
    List.map_cons, List.find?_cons_of_pos]
  · rfl
  · exact decide_eq_true rfl

/-- An owner before with the same address is found instead. -/
theorem getUserByEmail_earlier (h : Bootstrapped env.platform bs s) {p q : List Bootstrap}
    (hbs : bs = p ++ b :: q) {a : Bootstrap} (ha : a ∈ p)
    (hsame : Registry.normalized env.platform a.email = Registry.normalized env.platform b.email) :
    ∃ c ∈ p, s.registry.getUserByEmail env.platform b.email = some (c.owner env.platform) := by
  have hsome : ((p.map (Bootstrap.owner env.platform)).find? fun u =>
      u.email = Registry.normalized env.platform b.email).isSome = true := by
    refine List.find?_isSome.mpr ⟨a.owner env.platform,List.mem_map_of_mem ha,?_⟩
    exact decide_eq_true hsame
  obtain ⟨u,hu⟩ := Option.isSome_iff_exists.mp hsome
  obtain ⟨c,hc,rfl⟩ := List.mem_map.mp (List.mem_of_find?_eq_some hu)
  refine ⟨c,hc,?_⟩
  rw [Registry.getUserByEmail, h.users, hbs, List.map_append, List.find?_append, hu]
  rfl

/-- An organisation has its owner as its only member. -/
theorem membership_owner (h : Bootstrapped env.platform bs s) (hb : b ∈ bs) (userId : String) :
    s.registry.membership userId b.draws.orgId =
      if b.draws.userId = userId then some .admin else none := by
  have hrows : s.registry.members b.draws.orgId = b.members.rows := by
    rw [Registry.members, h.members b hb]
    rfl
  rw [Registry.membership, hrows, Bootstrap.members]
  split_ifs with hid
  · simp [hid]
  · simp [hid]

/-- A user of the address who knows the password and is a member gets a token. -/
theorem session_ok (now : ℚ) (req : SessionRequest) {user : User} {role : Role}
    (huser : s.registry.getUserByEmail env.platform (req.email.getD "") = some user)
    (hpassword : Registry.verifyPassword env.platform user (req.password.getD "") = true)
    (hrole : s.registry.membership user.userId (req.orgId.getD "") = some role)
    (hsecret : env.jwtSecret ≠ "") :
    (s.session env now req).2 = .ok {
      accessToken := env.jwt.encode (userClaims (Text.truncate now) env.jwtTtlSec user.userId
        (req.orgId.getD "") role.value) env.jwtSecret
      expiresIn := env.jwtTtlSec } := by
  have hfilter : ((s.registry.getUserByEmail env.platform (req.email.getD "")).filter fun user =>
      Registry.verifyPassword env.platform user (req.password.getD "")) = some user := by
    simp [huser, hpassword]
  rw [session]
  simp only [hfilter, hrole, issueUserJwt, SessionEnv.issueUserJwt, SessionEnv.issue,
    if_neg hsecret, Option.map_some, Option.getD_none]

/-- An owner gets a token exactly if no owner before has the same address. -/
theorem logsIn_iff (h : Bootstrapped env.platform bs s) (hdrawn : DrawnApart bs)
    (hsecret : env.jwtSecret ≠ "") (now : ℚ) {p q : List Bootstrap} (hbs : bs = p ++ b :: q) :
    LogsIn env s now b ↔ ∀ a ∈ p, Registry.normalized env.platform a.email ≠
      Registry.normalized env.platform b.email := by
  have hb : b ∈ bs := by
    rw [hbs]
    exact List.mem_append_right p List.mem_cons_self
  constructor
  · rintro ⟨iat,ttl,role,expiresIn,hlogin⟩ a ha hsame
    obtain ⟨c,hc,hfound⟩ := getUserByEmail_earlier h hbs ha hsame
    obtain ⟨log,e,heq⟩ | ⟨user,role',s',issued,row,huser,-,hrole,-,heq⟩ :=
      session_cases env s now b.login
    · rw [heq] at hlogin
      cases hlogin
    · obtain rfl := Option.some.inj (hfound.symm.trans huser)
      change s.registry.membership c.draws.userId b.draws.orgId = _ at hrole
      rw [membership_owner h hb, if_neg] at hrole
      · cases hrole
      · intro heq
        have hids := hdrawn.userIds
        rw [hbs, List.map_append, List.nodup_append] at hids
        refine hids.2.2 c.draws.userId (List.mem_map_of_mem hc) b.draws.userId ?_ heq.symm
        exact List.mem_map_of_mem List.mem_cons_self
  · intro hfirst
    have hfound := getUserByEmail_first h hbs hfirst
    have hpassword := verifyPassword_owner env.platform (hdrawn.salts b hb)
    have hmember := membership_owner h hb b.draws.userId
    rw [if_pos rfl] at hmember
    exact ⟨Text.truncate now,env.jwtTtlSec,Role.admin.value,env.jwtTtlSec,
      session_ok now b.login hfound hpassword hmember hsecret⟩

/-- Pairwise different values: none is one of those before it. -/
theorem nodup_map_iff {α β : Type} (f : α → β) (l : List α) :
    (l.map f).Nodup ↔ ∀ p a q, l = p ++ a :: q → ∀ c ∈ p, f c ≠ f a := by
  constructor
  · rintro h p a q rfl c hc
    rw [List.map_append, List.nodup_append] at h
    exact h.2.2 (f c) (List.mem_map_of_mem hc) (f a) (List.mem_map_of_mem List.mem_cons_self)
  · intro h
    induction l using List.reverseRecOn with
    | nil => exact List.nodup_nil
    | append_singleton l a ih =>
      rw [List.map_append, List.map_singleton, List.nodup_append]
      refine ⟨ih fun p b q hl c hc => ?_,List.nodup_singleton _,fun x hx y hy => ?_⟩
      · exact h p b (q ++ [a]) (by rw [hl, List.append_assoc]; rfl) c hc
      · obtain ⟨c,hc,rfl⟩ := List.mem_map.mp hx
        rw [List.mem_singleton.mp hy]
        exact h l a [] rfl c hc

/-- After successful bootstraps, all owners get their tokens exactly when no two of them have the
same address after it is normalised. -/
theorem owners_logIn_iff (hsecret : env.jwtSecret ≠ "") (bs : List Bootstrap)
    (hok : Along (bootstrap env) (Succeeds env) {} bs) (hdrawn : DrawnApart bs) :
    (∀ b ∈ bs, ∀ now, LogsIn env (run (bootstrap env) {} bs) now b) ↔
      (bs.map fun b => Registry.normalized env.platform b.email).Nodup := by
  have h := bootstrapped_run hok hdrawn
  rw [nodup_map_iff]
  constructor
  · intro hall p b q hbs
    have hb : b ∈ bs := by
      rw [hbs]
      exact List.mem_append_right p List.mem_cons_self
    exact (logsIn_iff h hdrawn hsecret 0 hbs).mp (hall b hb 0)
  · intro hfirst b hb now
    obtain ⟨p,q,hbs⟩ := List.append_of_mem hb
    exact (logsIn_iff h hdrawn hsecret now hbs).mpr (hfirst p b q hbs)

end Login

section Reused

def firstOwner : Bootstrap where
  draws := { orgId := "o1", userId := "u1", salt := "01", tokenId := "t1", secret := "sk_1" }
  req := { authorization := some "Bearer boot", ownerEmail := some "a@x" }

def secondOwner (email : String) : Bootstrap where
  draws := { orgId := "o2", userId := "u2", salt := "02", tokenId := "t2", secret := "sk_2" }
  req := { authorization := some "Bearer boot", ownerEmail := some email }

/-- Two owners, the second with an address of its own or with that of the first. -/
def twoOwners (email : String) : List Bootstrap := [firstOwner,secondOwner email]

theorem succeed_twoOwners (email : String) :
    Along (bootstrap clearEnv) (Succeeds clearEnv) {} (twoOwners email) :=
  ⟨⟨_,rfl⟩,⟨_,rfl⟩,trivial⟩

theorem drawnApart_twoOwners (email : String) : DrawnApart (twoOwners email) := by
  have horgs : ["o1","o2"].Nodup := by decide
  have husers : ["u1","u2"].Nodup := by decide
  have hsalts : ∀ salt ∈ ["01","02"], '$' ∉ salt.toList := by decide
  exact ⟨horgs,husers,fun b hb => hsalts _ (List.mem_map_of_mem (f := fun b => b.draws.salt) hb)⟩

theorem owners_logIn_two :
    LogsIn clearEnv (run (bootstrap clearEnv) {} (twoOwners "b@x")) 0 (secondOwner "b@x") :=
  (owners_logIn_iff (by decide) (twoOwners "b@x") (succeed_twoOwners "b@x")
    (drawnApart_twoOwners "b@x")).mpr (by decide +kernel) (secondOwner "b@x")
    (List.mem_cons_of_mem _ List.mem_cons_self) 0

/-- The second owner has the address of the first, but for case and blanks. -/
theorem not_owners_logIn : ¬ ∀ (env : GatewayEnv), env.jwtSecret ≠ "" → ∀ bs,
    Along (bootstrap env) (Succeeds env) {} bs → DrawnApart bs →
    ∀ b ∈ bs, ∀ now, LogsIn env (run (bootstrap env) {} bs) now b := by
  intro h
  have hdrawn := drawnApart_twoOwners " A@x"
  have hbootstrapped := bootstrapped_run (succeed_twoOwners " A@x") hdrawn
  have hall := h clearEnv (by decide) _ (succeed_twoOwners " A@x") hdrawn
  have hlogin := hall (secondOwner " A@x") (List.mem_cons_of_mem _ List.mem_cons_self) 0
  have hfirst := (logsIn_iff (p := [firstOwner]) hbootstrapped hdrawn (by decide) 0 rfl).mp hlogin
  exact hfirst firstOwner (List.mem_singleton_self _) (by decide +kernel)

end Reused

end GatewayState
end Arsonist.Gateway
