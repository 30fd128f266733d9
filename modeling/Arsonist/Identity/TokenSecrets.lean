import Arsonist.Identity.Registry
import Arsonist.Library.Steps

/-! The life of a token's secret, from the call that returns it to the call that revokes or rotates
the token. -/
namespace Arsonist.Identity
open Arsonist.Library

/-- A call on the API tokens, with what it draws: `"atk_" ++ id` and `"sk_" ++ secret`. -/
inductive TokenCall
  | create (now : ℚ) (id secret orgId name : String)
  | revoke (tokenId : String)
  | revokeForOrg (orgId tokenId : String)
  | rotate (now : ℚ) (id secret tokenId : String)

/-- What a call has done, by what it returned. -/
inductive TokenEvent
  | created (secret tokenId orgId : String)
  | rotated (old secret tokenId : String)
  | revoked (tokenId : String)
  deriving DecidableEq

namespace TokenEvent

/-- The call returned the secret of a token. -/
def Returns (secret tokenId : String) : TokenEvent → Prop
  | .created s t _ => s = secret ∧ t = tokenId
  | .rotated _ s t => s = secret ∧ t = tokenId
  | .revoked _ => False

/-- The call revoked a token, or rotated it. -/
def Ends (tokenId : String) : TokenEvent → Prop
  | .created _ _ _ => False
  | .rotated old _ _ => old = tokenId
  | .revoked t => t = tokenId

/-- The organisations that the tokens were created for. A rotation keeps the organisation. -/
def note (orgs : String → Option String) : TokenEvent → String → Option String
  | .created _ t orgId => Function.update orgs t (some orgId)
  | .rotated old _ t => Function.update orgs t (orgs old)
  | .revoked _ => orgs

end TokenEvent

/-- The secret was returned by a call whose token has not been revoked or rotated since. -/
def Live (log : List TokenEvent) (secret tokenId : String) : Prop :=
  ∃ p e q, log = p ++ e :: q ∧ e.Returns secret tokenId ∧ ∀ f ∈ q, ¬ f.Ends tokenId

/-- The organisation that a token was created for. -/
def createdFor (log : List TokenEvent) : String → Option String :=
  log.foldl TokenEvent.note fun _ => none

namespace TokenCall
variable (platform : Platform)

def draw : TokenCall → Option (String × String)
  | .create _ id secret _ _ => some ("sk_" ++ secret,"atk_" ++ id)
  | .revoke _ => none
  | .revokeForOrg _ _ => none
  | .rotate _ id secret _ => some ("sk_" ++ secret,"atk_" ++ id)

/-- A call that raises leaves the registry as it is, but for a token that was revoked before. -/
def exec (r : Registry) : TokenCall → Registry
  | .create now id secret orgId name =>
    match r.createOrgApiToken platform now ("atk_" ++ id) ("sk_" ++ secret) orgId name with
    | none => r
    | some (r',_) => r'
  | .revoke tokenId => (r.revokeOrgApiToken tokenId).1
  | .revokeForOrg orgId tokenId => (r.revokeOrgApiTokenForOrg orgId tokenId).1
  | .rotate now id secret tokenId =>
    (r.rotateOrgApiToken platform now ("atk_" ++ id) ("sk_" ++ secret) tokenId).1

def event (r : Registry) : TokenCall → Option TokenEvent
  | .create now id secret orgId name =>
    (r.createOrgApiToken platform now ("atk_" ++ id) ("sk_" ++ secret) orgId name).map
      fun x => .created x.2.secret x.2.tokenId orgId
  | .revoke tokenId => if (r.revokeOrgApiToken tokenId).2 then some (.revoked tokenId) else none
  | .revokeForOrg orgId tokenId =>
    if (r.revokeOrgApiTokenForOrg orgId tokenId).2 then some (.revoked tokenId) else none
  | .rotate now id secret tokenId =>
    (r.rotateOrgApiToken platform now ("atk_" ++ id) ("sk_" ++ secret) tokenId).2.map
      fun new => .rotated tokenId new.secret new.tokenId

/-- The secrets and ids that some calls draw. -/
def draws (calls : List TokenCall) : List (String × String) := calls.filterMap draw

/-- What the calls of a history have done. -/
def log (r : Registry) (calls : List TokenCall) : List TokenEvent :=
  emitted (exec platform) (event platform) r calls

end TokenCall

/-- The draws differ from each other, and no two of their secrets have the same digest. -/
structure FreshDraws (platform : Platform) (given : List (String × String)) : Prop where
  secrets : (given.map Prod.fst).Nodup
  ids : (given.map Prod.snd).Nodup
  digests : ∀ x ∈ given, ∀ y ∈ given, platform.sha256 x.1 = platform.sha256 y.1 → x.1 = y.1

section Events
variable {l : List TokenEvent} {e : TokenEvent} {secret tokenId : String}

theorem live_concat :
    Live (l ++ [e]) secret tokenId ↔
      e.Returns secret tokenId ∨ Live l secret tokenId ∧ ¬ e.Ends tokenId := by
  constructor
  · rintro ⟨p,f,q,hl,hf,hq⟩
    cases q using List.reverseRecOn with
    | nil =>
      obtain ⟨-,hef⟩ := List.append_inj' hl rfl
      cases hef
      exact Or.inl hf
    | append_singleton q g =>
      rw [← List.cons_append, ← List.append_assoc] at hl
      obtain ⟨hinit,heg⟩ := List.append_inj' hl rfl
      cases heg
      refine Or.inr ⟨⟨p,f,q,hinit,hf,fun a ha => hq a (List.mem_append_left _ ha)⟩,?_⟩
      exact hq e (List.mem_append_right _ (List.mem_singleton_self e))
  · rintro (he | ⟨⟨p,f,q,rfl,hf,hq⟩,he⟩)
    · exact ⟨l,e,[],rfl,he,nofun⟩
    · refine ⟨p,f,q ++ [e],by rw [List.append_assoc]; rfl,hf,fun a ha => ?_⟩
      obtain ha | ha := List.mem_append.mp ha
      · exact hq a ha
      · rw [List.mem_singleton.mp ha]
        exact he

theorem not_live_nil : ¬ Live [] secret tokenId := by
  rintro ⟨p,e,q,hl,-⟩
  simp at hl

theorem createdFor_concat : createdFor (l ++ [e]) = TokenEvent.note (createdFor l) e :=
  List.foldl_concat _ _ _ _

/-- A rotation is a revocation and a creation for the same organisation. -/
theorem live_rotated {old secret' tokenId' orgId : String} :
    Live (l ++ [.rotated old secret' tokenId']) secret tokenId ↔
      Live (l ++ [.revoked old] ++ [.created secret' tokenId' orgId]) secret tokenId := by
  simp only [live_concat, TokenEvent.Returns, TokenEvent.Ends, not_false_eq_true, and_true,
    false_or]

theorem createdFor_rotated {old secret' tokenId' orgId : String}
    (h : createdFor l old = some orgId) :
    createdFor (l ++ [.rotated old secret' tokenId']) =
      createdFor (l ++ [.revoked old] ++ [.created secret' tokenId' orgId]) := by
  simp only [createdFor_concat, TokenEvent.note, h]

end Events

/-- What holds of the tokens of a registry, by what has happened and what was drawn. -/
structure Accounts (platform : Platform) (r : Registry) (log : List TokenEvent)
    (given : List (String × String)) : Prop where
  drawn : ∀ id rec, r.apiTokens.get? id = some rec → ∃ secret, (secret,id) ∈ given ∧
    rec.hash = platform.sha256 secret ∧ (rec.revoked = false ↔ Live log secret id)
  org : ∀ id rec, r.apiTokens.get? id = some rec →
    createdFor log id = some rec.orgId ∧ (r.orgs.get? rec.orgId).isSome
  live : ∀ secret id, Live log secret id →
    (secret,id) ∈ given ∧ (r.apiTokens.get? id).isSome
  index : ∀ d entry, r.tokenHashIndex.get? d = some entry → ∃ rec,
    r.apiTokens.get? entry.tokenId = some rec ∧ rec.hash = d ∧ rec.revoked = false
  indexed : ∀ id rec, r.apiTokens.get? id = some rec → rec.revoked = false →
    r.tokenHashIndex.get? rec.hash = some ⟨rec.hash,id⟩

namespace Registry
variable {platform : Platform} {r : Registry}

/-- The registry with a new token. -/
def withToken (r : Registry) (rec : ApiToken) : Registry :=
  { r with apiTokens := r.apiTokens.put rec,
           tokenHashIndex := r.tokenHashIndex.put { digest := rec.hash, tokenId := rec.tokenId } }

/-- The registry with a token revoked. -/
def withRevoked (r : Registry) (rec : ApiToken) : Registry :=
  { r with apiTokens := r.apiTokens.put { rec with revoked := true },
           tokenHashIndex := r.tokenHashIndex.erase rec.hash }

theorem token_withToken (r : Registry) (rec : ApiToken) (id : String) :
    (r.withToken rec).apiTokens.get? id =
      if id = rec.tokenId then some rec else r.apiTokens.get? id := Table.get?_put _ _ _

theorem index_withToken (r : Registry) (rec : ApiToken) (d : String) :
    (r.withToken rec).tokenHashIndex.get? d =
      if d = rec.hash then some { digest := rec.hash, tokenId := rec.tokenId }
      else r.tokenHashIndex.get? d := Table.get?_put _ _ _

theorem token_withRevoked (r : Registry) (rec : ApiToken) (id : String) :
    (r.withRevoked rec).apiTokens.get? id =
      if id = rec.tokenId then some { rec with revoked := true } else r.apiTokens.get? id :=
  Table.get?_put _ _ _

theorem index_withRevoked (r : Registry) (rec : ApiToken) (d : String) :
    (r.withRevoked rec).tokenHashIndex.get? d =
      if d = rec.hash then none else r.tokenHashIndex.get? d := Table.get?_erase _ _ _

/-- A token as it is made for a secret. -/
structure Made (platform : Platform) (secret id orgId : String) (rec : ApiToken) : Prop where
  tokenId : rec.tokenId = id
  orgId : rec.orgId = orgId
  hash : rec.hash = platform.sha256 secret
  unrevoked : rec.revoked = false

theorem createOrgApiToken_cases (platform : Platform) (r : Registry) (now : ℚ)
    (id secret orgId name : String) :
    ((r.orgs.get? orgId).isSome ∧ ∃ rec new, Made platform secret id orgId rec ∧
      r.createOrgApiToken platform now id secret orgId name = some (r.withToken rec,new) ∧
        new.secret = secret ∧ new.tokenId = id) ∨
    (r.orgs.get? orgId = none ∧
      r.createOrgApiToken platform now id secret orgId name = none) := by
  by_cases h : (r.orgs.get? orgId).isSome
  · exact Or.inl ⟨h,_,_,⟨rfl,rfl,rfl,rfl⟩,if_pos h,rfl,rfl⟩
  · exact Or.inr ⟨Option.not_isSome_iff_eq_none.mp h,if_neg h⟩

theorem revokeOrgApiToken_cases (r : Registry) (tokenId : String) :
    (∃ rec, r.apiTokens.get? tokenId = some rec ∧
      r.revokeOrgApiToken tokenId = (r.withRevoked rec,true)) ∨
    r.revokeOrgApiToken tokenId = (r,false) := by
  cases h : r.apiTokens.get? tokenId with
  | none => exact Or.inr (by rw [revokeOrgApiToken, h])
  | some rec => exact Or.inl ⟨rec,rfl,by rw [revokeOrgApiToken, h]; rfl⟩

theorem revokeOrgApiTokenForOrg_cases (r : Registry) (orgId tokenId : String) :
    (∃ rec, r.apiTokens.get? tokenId = some rec ∧
      r.revokeOrgApiTokenForOrg orgId tokenId = (r.withRevoked rec,true)) ∨
    r.revokeOrgApiTokenForOrg orgId tokenId = (r,false) := by
  rw [revokeOrgApiTokenForOrg]
  split
  · exact Or.inr rfl
  · split_ifs
    · exact Or.inr rfl
    · exact revokeOrgApiToken_cases r tokenId

end Registry

namespace TokenCall
variable {platform : Platform} {r : Registry}

/-- What a call can do. The last case is a rotation for an organisation that does not exist. -/
theorem step_cases (platform : Platform) (r : Registry) (c : TokenCall) :
    (c.exec platform r = r ∧ c.event platform r = none) ∨
    (∃ secret id orgId rec, c.draw = some (secret,id) ∧ (r.orgs.get? orgId).isSome ∧
      Registry.Made platform secret id orgId rec ∧ c.exec platform r = r.withToken rec ∧
      c.event platform r = some (.created secret id orgId)) ∨
    (∃ old rec, r.apiTokens.get? old = some rec ∧ c.draw = none ∧
      c.exec platform r = r.withRevoked rec ∧ c.event platform r = some (.revoked old)) ∨
    (∃ old rec secret id new, r.apiTokens.get? old = some rec ∧ c.draw = some (secret,id) ∧
      Registry.Made platform secret id rec.orgId new ∧
      c.exec platform r = (r.withRevoked rec).withToken new ∧
      c.event platform r = some (.rotated old secret id)) ∨
    ∃ old rec, r.apiTokens.get? old = some rec ∧ r.orgs.get? rec.orgId = none := by
  cases c with
  | create now id secret orgId name =>
    obtain ⟨horg,rec,new,hmade,hcreate,hsecret,hid⟩ | ⟨-,hcreate⟩ :=
      r.createOrgApiToken_cases platform now ("atk_" ++ id) ("sk_" ++ secret) orgId name
    · refine Or.inr (Or.inl ⟨_,_,orgId,rec,rfl,horg,hmade,?_,?_⟩)
      · rw [exec, hcreate]
      · rw [event, hcreate, Option.map_some, hsecret, hid]
    · refine Or.inl ⟨?_,?_⟩
      · rw [exec, hcreate]
      · rw [event, hcreate, Option.map_none]
  | revoke tokenId =>
    obtain ⟨rec,hrec,hrevoke⟩ | hrevoke := r.revokeOrgApiToken_cases tokenId
    · refine Or.inr (Or.inr (Or.inl ⟨tokenId,rec,hrec,rfl,?_,?_⟩))
      · rw [exec, hrevoke]
      · rw [event, hrevoke, if_pos rfl]
    · refine Or.inl ⟨?_,?_⟩
      · rw [exec, hrevoke]
      · rw [event, hrevoke, if_neg Bool.false_ne_true]
  | revokeForOrg orgId tokenId =>
    obtain ⟨rec,hrec,hrevoke⟩ | hrevoke := r.revokeOrgApiTokenForOrg_cases orgId tokenId
    · refine Or.inr (Or.inr (Or.inl ⟨tokenId,rec,hrec,rfl,?_,?_⟩))
      · rw [exec, hrevoke]
      · rw [event, hrevoke, if_pos rfl]
    · refine Or.inl ⟨?_,?_⟩
      · rw [exec, hrevoke]
      · rw [event, hrevoke, if_neg Bool.false_ne_true]
  | rotate now id secret tokenId =>
    cases hfound : (r.apiTokens.get? tokenId).filter fun rec => !rec.revoked with
    | none =>
      refine Or.inl ⟨?_,?_⟩
      · rw [exec, Registry.rotateOrgApiToken, hfound]
      · rw [event, Registry.rotateOrgApiToken, hfound]
        rfl
    | some rec =>
      have hrec : r.apiTokens.get? tokenId = some rec := (Option.filter_eq_some_iff.mp hfound).1
      have hrevoke : r.revokeOrgApiToken tokenId = (r.withRevoked rec,true) := by
        rw [Registry.revokeOrgApiToken, hrec]
        rfl
      obtain ⟨-,made,new,hmade,hcreate,hsecret,hid⟩ | ⟨horg,-⟩ :=
        (r.withRevoked rec).createOrgApiToken_cases platform now ("atk_" ++ id) ("sk_" ++ secret)
          rec.orgId rec.name
      · have hrotate : r.rotateOrgApiToken platform now ("atk_" ++ id) ("sk_" ++ secret) tokenId =
            ((r.withRevoked rec).withToken made,some new) := by
          rw [Registry.rotateOrgApiToken, hfound]
          dsimp only
          rw [hrevoke, hcreate]
        refine Or.inr (Or.inr (Or.inr (Or.inl ⟨tokenId,rec,_,_,made,hrec,rfl,hmade,?_,?_⟩)))
        · rw [exec, hrotate]
        · rw [event, hrotate, Option.map_some, hsecret, hid]
      · exact Or.inr (Or.inr (Or.inr (Or.inr ⟨tokenId,rec,hrec,horg⟩)))

end TokenCall

namespace FreshDraws
variable {platform : Platform} {given more : List (String × String)}

theorem init (h : FreshDraws platform (given ++ more)) : FreshDraws platform given := by
  refine ⟨?_,?_,?_⟩
  · exact h.secrets.sublist ((List.sublist_append_left given more).map _)
  · exact h.ids.sublist ((List.sublist_append_left given more).map _)
  · intro x hx y hy
    exact h.digests x (List.mem_append_left _ hx) y (List.mem_append_left _ hy)

theorem secret_eq (h : FreshDraws platform given) {s s' t : String} (hs : (s,t) ∈ given)
    (hs' : (s',t) ∈ given) : s = s' :=
  congrArg Prod.fst (List.inj_on_of_nodup_map h.ids hs hs' rfl)

/-- The digest of a secret determines the token. -/
theorem id_eq (h : FreshDraws platform given) {s s' t t' : String} (hs : (s,t) ∈ given)
    (hs' : (s',t') ∈ given) (hhash : platform.sha256 s = platform.sha256 s') : t = t' :=
  congrArg Prod.snd (List.inj_on_of_nodup_map h.secrets hs hs' (h.digests _ hs _ hs' hhash))

end FreshDraws

namespace Accounts
variable {platform : Platform} {r : Registry} {l l' : List TokenEvent}
  {given : List (String × String)}

theorem congr (h : Accounts platform r l given) (hlive : ∀ s t, Live l' s t ↔ Live l s t)
    (horg : createdFor l' = createdFor l) : Accounts platform r l' given := by
  refine ⟨?_,?_,?_,h.index,h.indexed⟩
  · simp only [hlive]
    exact h.drawn
  · rw [horg]
    exact h.org
  · simp only [hlive]
    exact h.live

/-- More that is drawn changes nothing. -/
theorem more (h : Accounts platform r l given) (drawn : List (String × String)) :
    Accounts platform r l (given ++ drawn) := by
  refine ⟨?_,h.org,?_,h.index,h.indexed⟩
  · intro id rec hrec
    obtain ⟨secret,hgiven,hrest⟩ := h.drawn id rec hrec
    exact ⟨secret,List.mem_append_left _ hgiven,hrest⟩
  · intro secret id hlive
    obtain ⟨hgiven,hrec⟩ := h.live secret id hlive
    exact ⟨List.mem_append_left _ hgiven,hrec⟩

theorem hash_ne (h : Accounts platform r l given) (hfresh : FreshDraws platform given)
    {id id' : String} {rec rec' : ApiToken} (hrec : r.apiTokens.get? id = some rec)
    (hrec' : r.apiTokens.get? id' = some rec') (hne : id ≠ id') : rec.hash ≠ rec'.hash := by
  obtain ⟨secret,hgiven,hhash,-⟩ := h.drawn id rec hrec
  obtain ⟨secret',hgiven',hhash',-⟩ := h.drawn id' rec' hrec'
  rw [hhash, hhash']
  exact fun he => hne (hfresh.id_eq hgiven hgiven' he)

theorem issue (h : Accounts platform r l given) {secret id orgId : String} {rec : ApiToken}
    (hmade : Registry.Made platform secret id orgId rec) (horg : (r.orgs.get? orgId).isSome)
    (hfresh : FreshDraws platform (given ++ [(secret,id)])) :
    Accounts platform (r.withToken rec) (l ++ [.created secret id orgId])
      (given ++ [(secret,id)]) := by
  have hnew : (secret,id) ∈ given ++ [(secret,id)] :=
    List.mem_append_right _ (List.mem_singleton_self _)
  have hid : ∀ s, (s,id) ∉ given := by
    intro s hs
    have hids := hfresh.ids
    rw [List.map_append, List.nodup_append] at hids
    exact hids.2.2 id (List.mem_map_of_mem hs) id (List.mem_singleton_self id) rfl
  have hold : ∀ i old, r.apiTokens.get? i = some old → i ≠ id := by
    rintro i old hi rfl
    obtain ⟨s,hs,-⟩ := h.drawn i old hi
    exact hid s hs
  have hlive : ∀ s t, Live (l ++ [.created secret id orgId]) s t ↔
      secret = s ∧ id = t ∨ Live l s t := by
    intro s t
    rw [live_concat]
    simp only [TokenEvent.Returns, TokenEvent.Ends, not_false_eq_true, and_true]
  have hhash : ∀ i old, r.apiTokens.get? i = some old → old.hash ≠ rec.hash := by
    intro i old hi
    obtain ⟨s,hs,he,-⟩ := h.drawn i old hi
    rw [he, hmade.hash]
    intro hsame
    exact hold i old hi (hfresh.id_eq (List.mem_append_left _ hs) hnew hsame)
  refine ⟨?_,?_,?_,?_,?_⟩
  · intro i x hx
    rw [Registry.token_withToken, hmade.tokenId] at hx
    split_ifs at hx with hi
    · obtain rfl := Option.some.inj hx
      subst hi
      exact ⟨secret,hnew,hmade.hash,
        iff_of_true hmade.unrevoked ((hlive _ _).mpr (Or.inl ⟨rfl,rfl⟩))⟩
    · obtain ⟨s,hs,he,hiff⟩ := h.drawn i x hx
      refine ⟨s,List.mem_append_left _ hs,he,hiff.trans ?_⟩
      rw [hlive, or_iff_right fun hand => hi hand.2.symm]
  · intro i x hx
    rw [Registry.token_withToken, hmade.tokenId] at hx
    rw [createdFor_concat, TokenEvent.note]
    split_ifs at hx with hi
    · obtain rfl := Option.some.inj hx
      rw [hi, Function.update_self, hmade.orgId]
      exact ⟨rfl,horg⟩
    · rw [Function.update_of_ne hi]
      exact h.org i x hx
  · intro s t hst
    rw [Registry.token_withToken, hmade.tokenId]
    obtain ⟨rfl,rfl⟩ | hst := (hlive s t).mp hst
    · rw [if_pos rfl]
      exact ⟨hnew,rfl⟩
    · obtain ⟨hs,hsome⟩ := h.live s t hst
      refine ⟨List.mem_append_left _ hs,?_⟩
      split_ifs
      · rfl
      · exact hsome
  · intro d entry hd
    rw [Registry.index_withToken] at hd
    split_ifs at hd with hdig
    · obtain rfl := Option.some.inj hd
      refine ⟨rec,?_,hdig.symm,hmade.unrevoked⟩
      rw [Registry.token_withToken, if_pos rfl]
    · obtain ⟨old,hget,hrest⟩ := h.index d entry hd
      refine ⟨old,?_,hrest⟩
      rw [Registry.token_withToken, hmade.tokenId, if_neg (hold _ old hget)]
      exact hget
  · intro i x hx hrevoked
    rw [Registry.token_withToken, hmade.tokenId] at hx
    rw [Registry.index_withToken]
    split_ifs at hx with hi
    · obtain rfl := Option.some.inj hx
      rw [if_pos rfl, hi, hmade.tokenId]
    · rw [if_neg (hhash i x hx)]
      exact h.indexed i x hx hrevoked

theorem revoke (h : Accounts platform r l given) (hfresh : FreshDraws platform given)
    {old : String} {rec : ApiToken} (hrec : r.apiTokens.get? old = some rec) :
    Accounts platform (r.withRevoked rec) (l ++ [.revoked old]) given := by
  have hkey : rec.tokenId = old := Table.key_of_get? hrec
  have hlive : ∀ s t, Live (l ++ [.revoked old]) s t ↔ Live l s t ∧ old ≠ t := by
    intro s t
    rw [live_concat]
    simp only [TokenEvent.Returns, TokenEvent.Ends, false_or, ne_eq]
  refine ⟨?_,?_,?_,?_,?_⟩
  · intro i x hx
    rw [Registry.token_withRevoked, hkey] at hx
    split_ifs at hx with hi
    · obtain rfl := Option.some.inj hx
      obtain ⟨s,hs,he,-⟩ := h.drawn old rec hrec
      subst hi
      refine ⟨s,hs,he,iff_of_false Bool.noConfusion fun hst => ?_⟩
      exact ((hlive _ _).mp hst).2 rfl
    · obtain ⟨s,hs,he,hiff⟩ := h.drawn i x hx
      refine ⟨s,hs,he,hiff.trans ?_⟩
      rw [hlive, and_iff_left (Ne.symm hi)]
  · intro i x hx
    rw [Registry.token_withRevoked, hkey] at hx
    rw [createdFor_concat, TokenEvent.note]
    split_ifs at hx with hi
    · obtain rfl := Option.some.inj hx
      rw [hi]
      exact h.org old rec hrec
    · exact h.org i x hx
  · intro s t hst
    obtain ⟨hs,hsome⟩ := h.live s t ((hlive s t).mp hst).1
    refine ⟨hs,?_⟩
    rw [Registry.token_withRevoked]
    split_ifs
    · rfl
    · exact hsome
  · intro d entry hd
    rw [Registry.index_withRevoked] at hd
    split_ifs at hd with hdig
    obtain ⟨x,hget,hhash,hrevoked⟩ := h.index d entry hd
    refine ⟨x,?_,hhash,hrevoked⟩
    rw [Registry.token_withRevoked, hkey, if_neg]
    · exact hget
    · intro he
      rw [he, hrec] at hget
      exact hdig (hhash.symm.trans (congrArg ApiToken.hash (Option.some.inj hget)).symm)
  · intro i x hx hrevoked
    rw [Registry.token_withRevoked, hkey] at hx
    rw [Registry.index_withRevoked]
    split_ifs at hx with hi
    · obtain rfl := Option.some.inj hx
      cases hrevoked
    · rw [if_neg (h.hash_ne hfresh hx hrec hi)]
      exact h.indexed i x hx hrevoked

/-- What one call keeps. -/
theorem step (h : Accounts platform r l given) (c : TokenCall)
    (hfresh : FreshDraws platform (given ++ c.draw.toList)) :
    Accounts platform (c.exec platform r) (l ++ (c.event platform r).toList)
      (given ++ c.draw.toList) := by
  obtain ⟨hexec,hevent⟩ | ⟨secret,id,orgId,rec,hdraw,horg,hmade,hexec,hevent⟩ |
    ⟨old,rec,hrec,hdraw,hexec,hevent⟩ | ⟨old,rec,secret,id,new,hrec,hdraw,hmade,hexec,hevent⟩ |
    ⟨old,rec,hrec,hnone⟩ := c.step_cases platform r
  · rw [hexec, hevent, Option.toList_none, List.append_nil]
    exact h.more _
  · rw [hdraw] at hfresh ⊢
    rw [hexec, hevent]
    exact h.issue hmade horg hfresh
  · rw [hdraw, Option.toList_none, List.append_nil] at hfresh ⊢
    rw [hexec, hevent]
    exact h.revoke hfresh hrec
  · rw [hdraw] at hfresh ⊢
    rw [hexec, hevent]
    obtain ⟨hcreated,horg⟩ := h.org old rec hrec
    have hboth := (h.revoke hfresh.init hrec).issue hmade horg hfresh
    exact hboth.congr (fun _ _ => live_rotated) (createdFor_rotated hcreated)
  · have horg := (h.org old rec hrec).2
    rw [hnone] at horg
    cases horg

theorem start (hnone : r.apiTokens = Table.empty) (hindex : r.tokenHashIndex = Table.empty) :
    Accounts platform r [] [] := by
  refine ⟨?_,?_,?_,?_,?_⟩
  · intro id rec hrec
    rw [hnone] at hrec
    cases hrec
  · intro id rec hrec
    rw [hnone] at hrec
    cases hrec
  · exact fun s t hst => absurd hst not_live_nil
  · intro d entry hd
    rw [hindex] at hd
    cases hd
  · intro id rec hrec
    rw [hnone] at hrec
    cases hrec

/-- What every run keeps. -/
theorem run_log (h : Accounts platform r [] []) (calls : List TokenCall)
    (hfresh : FreshDraws platform (TokenCall.draws calls)) :
    Accounts platform (run (TokenCall.exec platform) r calls) (TokenCall.log platform r calls)
      (TokenCall.draws calls) := by
  induction calls using List.reverseRecOn with
  | nil => exact h
  | append_singleton calls c ih =>
    have hdraws : TokenCall.draws (calls ++ [c]) = TokenCall.draws calls ++ c.draw.toList := by
      rw [TokenCall.draws, List.filterMap_append, TokenCall.draws, List.filterMap_cons]
      cases c.draw <;> rfl
    rw [hdraws] at hfresh ⊢
    rw [run_concat, TokenCall.log, emitted_concat]
    exact (ih hfresh.init).step c hfresh

end Accounts

/-- The secret that is asked about has no digest of another one that was drawn. -/
def NoCollision (platform : Platform) (given : List (String × String)) (secret : String) : Prop :=
  ∀ x ∈ given, platform.sha256 secret = platform.sha256 x.1 → secret = x.1

theorem exists_of_mem_draws {calls : List TokenCall} {x : String × String}
    (h : x ∈ TokenCall.draws calls) : ∃ id secret, x = ("sk_" ++ secret,"atk_" ++ id) := by
  obtain ⟨c,-,hc⟩ := List.mem_filterMap.mp h
  cases c with
  | create now id secret orgId name => exact ⟨id,secret,(Option.some.inj hc).symm⟩
  | revoke tokenId => cases hc
  | revokeForOrg orgId tokenId => cases hc
  | rotate now id secret tokenId => exact ⟨id,secret,(Option.some.inj hc).symm⟩

theorem isSecret_append (secret : String) : Registry.isSecret ("sk_" ++ secret) = true := by
  rw [Registry.isSecret, String.toList_append]
  exact List.isPrefixOf_iff_prefix.mpr (List.prefix_append _ _)

theorem tokenId_ne_empty (id : String) : "atk_" ++ id ≠ "" := by
  intro h
  have hl := congrArg String.toList h
  rw [String.toList_append] at hl
  exact absurd (List.append_eq_nil_iff.mp hl).1 (by decide)

/-- A secret is accepted exactly while it is live. -/
theorem Accounts.verify_iff {platform : Platform} {r : Registry} {log : List TokenEvent}
    {calls : List TokenCall} {secret : String} {rec : ApiToken}
    (h : Accounts platform r log (TokenCall.draws calls))
    (hfresh : FreshDraws platform (TokenCall.draws calls))
    (hsecret : NoCollision platform (TokenCall.draws calls) secret) :
    r.verifyOrgApiSecret platform secret = some rec ↔
      r.apiTokens.get? rec.tokenId = some rec ∧ Live log secret rec.tokenId := by
  rw [Registry.verifyOrgApiSecret]
  constructor
  · intro hverify
    split_ifs at hverify with hprefix
    cases hd : r.tokenHashIndex.get? (platform.sha256 secret) with
    | none =>
      rw [hd] at hverify
      cases hverify
    | some entry =>
      rw [hd] at hverify
      dsimp only at hverify
      split_ifs at hverify with hid
      obtain ⟨hrec,hrevoked⟩ := Option.filter_eq_some_iff.mp hverify
      have hkey : rec.tokenId = entry.tokenId := Table.key_of_get? hrec
      obtain ⟨x,hx,hhash,-⟩ := h.index _ entry hd
      obtain rfl := Option.some.inj (hrec.symm.trans hx)
      obtain ⟨s,hs,he,hiff⟩ := h.drawn entry.tokenId rec hrec
      have hsame : secret = s := hsecret _ hs (hhash.symm.trans he)
      rw [hkey, hsame]
      exact ⟨hrec,hiff.mp (by simpa using hrevoked)⟩
  · rintro ⟨hrec,hlive⟩
    obtain ⟨hgiven,-⟩ := h.live secret rec.tokenId hlive
    obtain ⟨s,hs,he,hiff⟩ := h.drawn rec.tokenId rec hrec
    obtain rfl := hfresh.secret_eq hgiven hs
    have hrevoked := hiff.mpr hlive
    obtain ⟨id,tail,hpair⟩ := exists_of_mem_draws hgiven
    obtain ⟨rfl,hid⟩ := Prod.mk.inj hpair
    have hentry := h.indexed rec.tokenId rec hrec hrevoked
    rw [he] at hentry
    rw [isSecret_append, if_neg Bool.noConfusion, hentry]
    dsimp only
    rw [if_neg (hid ▸ tokenId_ne_empty id), hrec]
    exact Option.filter_eq_some_iff.mpr ⟨rfl,by rw [hrevoked]; rfl⟩

/-- After every history of calls a secret is accepted exactly if it is live. It stands for the token
with which it was returned, and for the organisation that this token was created for. -/
theorem verifyOrgApiSecret_run {platform : Platform} {r : Registry} {calls : List TokenCall}
    {secret : String} (hnone : r.apiTokens = Table.empty)
    (hindex : r.tokenHashIndex = Table.empty)
    (hfresh : FreshDraws platform (TokenCall.draws calls))
    (hsecret : NoCollision platform (TokenCall.draws calls) secret) :
    ((∃ rec, (run (TokenCall.exec platform) r calls).verifyOrgApiSecret platform secret =
        some rec) ↔ ∃ id, Live (TokenCall.log platform r calls) secret id) ∧
      ∀ rec, (run (TokenCall.exec platform) r calls).verifyOrgApiSecret platform secret =
        some rec →
          (∀ id, Live (TokenCall.log platform r calls) secret id ↔ id = rec.tokenId) ∧
            createdFor (TokenCall.log platform r calls) rec.tokenId = some rec.orgId := by
  have hstart : Accounts platform r [] [] := Accounts.start hnone hindex
  have haccounts := hstart.run_log calls hfresh
  constructor
  · constructor
    · rintro ⟨rec,hrec⟩
      exact ⟨rec.tokenId,((haccounts.verify_iff hfresh hsecret).mp hrec).2⟩
    · rintro ⟨id,hlive⟩
      obtain ⟨rec,hrec⟩ := Option.isSome_iff_exists.mp (haccounts.live secret id hlive).2
      obtain rfl : rec.tokenId = id := Table.key_of_get? hrec
      exact ⟨rec,(haccounts.verify_iff hfresh hsecret).mpr ⟨hrec,hlive⟩⟩
  · intro rec hverify
    obtain ⟨hrec,hlive⟩ := (haccounts.verify_iff hfresh hsecret).mp hverify
    refine ⟨fun id => ⟨fun hid => ?_,?_⟩,(haccounts.org rec.tokenId rec hrec).1⟩
    · exact hfresh.id_eq (haccounts.live secret id hid).1
        (haccounts.live secret rec.tokenId hlive).1 rfl
    · rintro rfl
      exact hlive

/-- A token that is created, rotated, and revoked for another organisation and twice for its own. -/
def tokenLife : List TokenCall :=
  [.create 0 "1" "a" "acme" "default",.create 1 "2" "b" "other" "default",
    .rotate 2 "3" "c" "atk_1",.revokeForOrg "other" "atk_3",.revoke "atk_1",.revoke "atk_2",
    .revoke "atk_2"]

/-- Two organisations. -/
def twoOrgs : Registry :=
  { orgs := (Table.empty.put ⟨"acme","Acme","acme","free"⟩).put ⟨"other","Other","other","free"⟩ }

/-- SHA-256 of the secrets that are drawn. -/
def drawnDigests : Platform where
  lower := Text.lower
  strip := Text.strip
  sha256 s :=
    if s = "sk_a" then "4cdaf970137f67ee659f7f37a7f1deb1ed099c16ca0718aff7d961fcea0ca704"
    else if s = "sk_b" then "0ec376845b28fe564536dbd3afa78a70d1f087338f2ebc4f38a4e7fd8543b2a4"
    else if s = "sk_c" then "1f6ac1dd1ff8e5782af646c5ab90a1514a06837f3e0fc07fbad9cc4351458032"
    else s

theorem verifyOrgApiSecret_run_life :
    FreshDraws drawnDigests (TokenCall.draws tokenLife) ∧
      NoCollision drawnDigests (TokenCall.draws tokenLife) "sk_c" ∧
      ((∃ rec, (run (TokenCall.exec drawnDigests) twoOrgs tokenLife).verifyOrgApiSecret
          drawnDigests "sk_c" = some rec) ↔
        ∃ id, Live (TokenCall.log drawnDigests twoOrgs tokenLife) "sk_c" id) ∧
      ∀ rec, (run (TokenCall.exec drawnDigests) twoOrgs tokenLife).verifyOrgApiSecret drawnDigests
          "sk_c" = some rec →
        (∀ id, Live (TokenCall.log drawnDigests twoOrgs tokenLife) "sk_c" id ↔ id = rec.tokenId) ∧
          createdFor (TokenCall.log drawnDigests twoOrgs tokenLife) rec.tokenId =
            some rec.orgId := by
  have hfresh : FreshDraws drawnDigests (TokenCall.draws tokenLife) :=
    ⟨by decide +kernel,by decide +kernel,by decide +kernel⟩
  have hsecret : NoCollision drawnDigests (TokenCall.draws tokenLife) "sk_c" := by
    unfold NoCollision
    decide +kernel
  exact ⟨hfresh,hsecret,verifyOrgApiSecret_run rfl rfl hfresh hsecret⟩

example : ((run (TokenCall.exec drawnDigests) twoOrgs tokenLife).verifyOrgApiSecret drawnDigests
    "sk_c").map (fun rec => (rec.tokenId,rec.orgId)) = some ("atk_3","acme") := by decide +kernel

end Arsonist.Identity
