import Arsonist.Library.Eviction
import Arsonist.Library.Steps

/-! The affinity rules of `routing/request_affinity.py`. A rule that has expired is deleted when a
session asks for it, or by a clean-up; the rules of models and clients are left where they are. The
calls read the clock each time they look at a rule. -/
namespace Arsonist.Routing
open Arsonist.Library

structure AffinityRule where
  key : String
  targetRegion : String
  weight : ℚ := 1
  createdAt : ℚ
  ttlSec : ℚ := 3600
  deriving DecidableEq

instance : Keyed AffinityRule String := ⟨AffinityRule.key⟩

def AffinityRule.isExpired (rule : AffinityRule) (now : ℚ) : Prop :=
  rule.ttlSec < now-rule.createdAt

instance (rule : AffinityRule) (now : ℚ) : Decidable (rule.isExpired now) :=
  inferInstanceAs (Decidable (_ < _))

theorem AffinityRule.isExpired.mono {rule : AffinityRule} {s t : ℚ} (hst : s ≤ t)
    (h : rule.isExpired s) : rule.isExpired t := by
  rw [isExpired] at h ⊢
  linarith

inductive AffinityKind | session | model | client
  deriving DecidableEq

structure RequestAffinityManager where
  sessionAffinity : Table AffinityRule := .empty
  modelAffinity : Table AffinityRule := .empty
  clientAffinity : Table AffinityRule := .empty

/-- When `resolve_affinity` looks at the rules: twice at that of the session, if it has expired. -/
structure ResolveTimes where
  session : ℚ
  again : ℚ
  model : ℚ
  client : ℚ

namespace RequestAffinityManager
variable (m : RequestAffinityManager)

def store : AffinityKind → Table AffinityRule
  | .session => m.sessionAffinity
  | .model => m.modelAffinity
  | .client => m.clientAffinity

def withStore (t : Table AffinityRule) : AffinityKind → RequestAffinityManager
  | .session => { m with sessionAffinity := t }
  | .model => { m with modelAffinity := t }
  | .client => { m with clientAffinity := t }

def setSessionAffinity (now : ℚ) (sessionId regionId : String) (ttlSec : ℚ := 3600) :
    RequestAffinityManager :=
  m.withStore (m.sessionAffinity.put
    { key := sessionId, targetRegion := regionId, createdAt := now, ttlSec := ttlSec }) .session

def setModelAffinity (now : ℚ) (modelId regionId : String) (weight : ℚ := 1) :
    RequestAffinityManager :=
  m.withStore (m.modelAffinity.put
    { key := modelId, targetRegion := regionId, weight := weight, createdAt := now
      ttlSec := 86400 }) .model

def setClientAffinity (now : ℚ) (clientId regionId : String) (ttlSec : ℚ := 1800) :
    RequestAffinityManager :=
  m.withStore (m.clientAffinity.put
    { key := clientId, targetRegion := regionId, createdAt := now, ttlSec := ttlSec }) .client

/-- The region of a rule that has not expired. -/
def target (now : ℚ) (rule : Option AffinityRule) : Option String :=
  (rule.filter fun r => ¬r.isExpired now).map AffinityRule.targetRegion

def getSessionAffinity (now again : ℚ) (sessionId : String) :
    RequestAffinityManager × Option String :=
  match m.sessionAffinity.get? sessionId with
  | none => (m,none)
  | some rule =>
    if ¬rule.isExpired now then (m,some rule.targetRegion)
    else if rule.isExpired again then
      (m.withStore (m.sessionAffinity.erase sessionId) .session,none)
    else (m,none)

def getModelAffinity (now : ℚ) (modelId : String) : Option String :=
  target now (m.modelAffinity.get? modelId)

def getClientAffinity (now : ℚ) (clientId : String) : Option String :=
  target now (m.clientAffinity.get? clientId)

/-- The region asked for under a name. The empty name asks for none, and an empty region is none. -/
def asked (name : String) (region : Option String) : Option String :=
  if name = "" then none else region.filter (· ≠ "")

def resolveAffinity (t : ResolveTimes) (sessionId modelId clientId : String) :
    RequestAffinityManager × Option String :=
  let (m,session) :=
    if sessionId = "" then (m,none) else m.getSessionAffinity t.session t.again sessionId
  (m,((asked sessionId session).or (asked modelId (m.getModelAffinity t.model modelId))).or
    (asked clientId (m.getClientAffinity t.client clientId)))

/-- The rules of a store that a clean-up finds expired, each when it looks at it. -/
def expired (clock : String → ℚ) (t : Table AffinityRule) : List AffinityRule :=
  t.entries.filter fun rule => rule.isExpired (clock rule.key)

def cleanupExpired (clock : AffinityKind → String → ℚ) : RequestAffinityManager × ℕ :=
  let gone := fun kind => expired (clock kind) (m.store kind)
  (⟨m.sessionAffinity.without (gone .session),m.modelAffinity.without (gone .model),
      m.clientAffinity.without (gone .client)⟩,
    (gone .session).length+(gone .model).length+(gone .client).length)

end RequestAffinityManager

inductive AffinityCall
  | setSession (now : ℚ) (sessionId regionId : String) (ttlSec : ℚ)
  | setModel (now : ℚ) (modelId regionId : String) (weight : ℚ)
  | setClient (now : ℚ) (clientId regionId : String) (ttlSec : ℚ)
  | getSession (now again : ℚ) (sessionId : String)
  | getModel (now : ℚ) (modelId : String)
  | getClient (now : ℚ) (clientId : String)
  | resolve (t : ResolveTimes) (sessionId modelId clientId : String)
  | cleanup (clock : AffinityKind → String → ℚ)

namespace RequestAffinityManager

def exec (m : RequestAffinityManager) : AffinityCall → RequestAffinityManager
  | .setSession now sessionId regionId ttlSec =>
    m.setSessionAffinity now sessionId regionId ttlSec
  | .setModel now modelId regionId weight => m.setModelAffinity now modelId regionId weight
  | .setClient now clientId regionId ttlSec => m.setClientAffinity now clientId regionId ttlSec
  | .getSession now again sessionId => (m.getSessionAffinity now again sessionId).1
  | .getModel _ _ => m
  | .getClient _ _ => m
  | .resolve t sessionId modelId clientId => (m.resolveAffinity t sessionId modelId clientId).1
  | .cleanup clock => (m.cleanupExpired clock).1

/-- The region that a call answers. -/
def answer (m : RequestAffinityManager) : AffinityCall → Option String
  | .getSession now again sessionId => (m.getSessionAffinity now again sessionId).2
  | .getModel now modelId => m.getModelAffinity now modelId
  | .getClient now clientId => m.getClientAffinity now clientId
  | .resolve t sessionId modelId clientId => (m.resolveAffinity t sessionId modelId clientId).2
  | _ => none

end RequestAffinityManager

namespace AffinityCall
open RequestAffinityManager

/-- The rule that a call sets. -/
def rule : AffinityCall → Option (AffinityKind × AffinityRule)
  | .setSession now sessionId regionId ttlSec => some (.session,
      { key := sessionId, targetRegion := regionId, createdAt := now, ttlSec := ttlSec })
  | .setModel now modelId regionId weight => some (.model,
      { key := modelId, targetRegion := regionId, weight := weight, createdAt := now
        ttlSec := 86400 })
  | .setClient now clientId regionId ttlSec => some (.client,
      { key := clientId, targetRegion := regionId, createdAt := now, ttlSec := ttlSec })
  | _ => none

/-- The rule that was set last for a name, whatever became of it. -/
def lastRule (calls : List AffinityCall) (kind : AffinityKind) (name : String) :
    Option AffinityRule :=
  ((calls.filterMap rule).filter fun r => r.1 = kind ∧ r.2.key = name).getLast?.map Prod.snd

/-- The answer that follows from the rules set last, if nothing was ever deleted. -/
def told (calls : List AffinityCall) : AffinityCall → Option String
  | .getSession now _ sessionId => target now (lastRule calls .session sessionId)
  | .getModel now modelId => target now (lastRule calls .model modelId)
  | .getClient now clientId => target now (lastRule calls .client clientId)
  | .resolve t sessionId modelId clientId =>
    ((asked sessionId (target t.session (lastRule calls .session sessionId))).or
      (asked modelId (target t.model (lastRule calls .model modelId)))).or
        (asked clientId (target t.client (lastRule calls .client clientId)))
  | _ => none

/-- All that a call reads from the clock lies between two times, in order. -/
def Within (s t : ℚ) : AffinityCall → Prop
  | .setSession now _ _ _ => s ≤ now ∧ now ≤ t
  | .setModel now _ _ _ => s ≤ now ∧ now ≤ t
  | .setClient now _ _ _ => s ≤ now ∧ now ≤ t
  | .getSession now again _ => s ≤ now ∧ now ≤ again ∧ again ≤ t
  | .getModel now _ => s ≤ now ∧ now ≤ t
  | .getClient now _ => s ≤ now ∧ now ≤ t
  | .resolve times _ _ _ => s ≤ times.session ∧ times.session ≤ times.again ∧
      times.again ≤ times.model ∧ times.model ≤ times.client ∧ times.client ≤ t
  | .cleanup clock => ∀ kind name, s ≤ clock kind name ∧ clock kind name ≤ t

/-- The clock never goes back over the calls. -/
def Forward : ℚ → List AffinityCall → Prop
  | _, [] => True
  | s, call :: calls => ∃ t, call.Within s t ∧ Forward t calls

end AffinityCall
end Arsonist.Routing

/-! Deleting rules makes no difference to the answers, as long as the clock does not go back: what is
deleted had expired, and stays so. -/
namespace Arsonist.Routing
open Arsonist.Library
namespace RequestAffinityManager
open AffinityCall

variable {m : RequestAffinityManager} {calls : List AffinityCall} {s t : ℚ}

theorem store_withStore (m : RequestAffinityManager) (table : Table AffinityRule)
    (kind kind' : AffinityKind) :
    (m.withStore table kind).store kind' = if kind' = kind then table else m.store kind' := by
  cases kind <;> cases kind' <;> rfl

/-- A rule is stored as it was set last, or it is deleted and had expired by then. -/
def Agrees (m : RequestAffinityManager) (calls : List AffinityCall) (s : ℚ) : Prop :=
  ∀ kind name, (m.store kind).get? name = lastRule calls kind name ∨
    (m.store kind).get? name = none ∧
      ∃ rule, lastRule calls kind name = some rule ∧ rule.isExpired s

theorem Agrees.mono (h : m.Agrees calls s) (hst : s ≤ t) : m.Agrees calls t := by
  intro kind name
  obtain hsame | ⟨hnone,rule,hrule,hexpired⟩ := h kind name
  · exact Or.inl hsame
  · exact Or.inr ⟨hnone,rule,hrule,hexpired.mono hst⟩

theorem Agrees.target_eq (h : m.Agrees calls s) (hst : s ≤ t) (kind : AffinityKind)
    (name : String) :
    target t ((m.store kind).get? name) = target t (lastRule calls kind name) := by
  obtain hsame | ⟨hnone,rule,hrule,hexpired⟩ := h kind name
  · rw [hsame]
  · rw [hnone, hrule, target, target, Option.filter_some, if_neg]
    · rfl
    · simpa using hexpired.mono hst

theorem lastRule_concat (calls : List AffinityCall) (call : AffinityCall) (kind : AffinityKind)
    (name : String) :
    lastRule (calls ++ [call]) kind name =
      ((call.rule.filter fun r => r.1 = kind ∧ r.2.key = name).map Prod.snd).or
        (lastRule calls kind name) := by
  rw [lastRule, List.filterMap_append, List.filter_append, List.getLast?_append]
  cases h : call.rule with
  | none => simp [h, lastRule]
  | some r =>
    by_cases hr : r.1 = kind ∧ r.2.key = name
    · simp [h, hr, Option.filter]
    · simp [h, hr, lastRule, Option.filter]

/-- What a session is told, and what becomes of its rule. -/
theorem getSessionAffinity_cases (m : RequestAffinityManager) (now again : ℚ) (name : String) :
    (m.getSessionAffinity now again name).2 = target now (m.sessionAffinity.get? name) ∧
      ((m.getSessionAffinity now again name).1 = m ∨
        ∃ rule, m.sessionAffinity.get? name = some rule ∧ rule.isExpired again ∧
          (m.getSessionAffinity now again name).1 =
            m.withStore (m.sessionAffinity.erase name) .session) := by
  rw [getSessionAffinity]
  cases h : m.sessionAffinity.get? name with
  | none => exact ⟨rfl,Or.inl rfl⟩
  | some rule =>
    dsimp only
    by_cases hnow : rule.isExpired now
    · have hnone : target now (some rule) = none := by simp [target, Option.filter, hnow]
      rw [if_neg (not_not_intro hnow), hnone]
      split_ifs with hagain
      · exact ⟨rfl,Or.inr ⟨rule,rfl,hagain,rfl⟩⟩
      · exact ⟨rfl,Or.inl rfl⟩
    · rw [if_pos hnow]
      exact ⟨by simp [target, Option.filter, hnow],Or.inl rfl⟩

/-- A rule that has expired may be deleted. -/
theorem Agrees.erase (h : m.Agrees calls s) {name : String} {rule : AffinityRule}
    (hrule : m.sessionAffinity.get? name = some rule) (hexpired : rule.isExpired s) :
    (m.withStore (m.sessionAffinity.erase name) .session).Agrees calls s := by
  intro kind name'
  rw [store_withStore]
  split_ifs with hkind
  · subst hkind
    rw [Table.get?_erase]
    split_ifs with hname
    · subst hname
      obtain hsame | ⟨hnone,-⟩ := h .session name'
      · exact Or.inr ⟨rfl,rule,hsame ▸ hrule,hexpired⟩
      · rw [store, hrule] at hnone
        cases hnone
    · exact h .session name'
  · exact h kind name'

theorem Agrees.cleanup (h : m.Agrees calls s) {clock : AffinityKind → String → ℚ}
    (hclock : ∀ kind name, clock kind name ≤ s) : (m.cleanupExpired clock).1.Agrees calls s := by
  intro kind name
  have hstore : (m.cleanupExpired clock).1.store kind =
      (m.store kind).without (expired (clock kind) (m.store kind)) := by cases kind <;> rfl
  rw [hstore, expired, Table.get?_without_filter]
  obtain hsame | ⟨hnone,hlast⟩ := h kind name
  · rw [hsame]
    cases hrule : lastRule calls kind name with
    | none => exact Or.inl rfl
    | some rule =>
      by_cases hexpired : rule.isExpired (clock kind rule.key)
      · refine Or.inr ⟨?_,rule,rfl,hexpired.mono (hclock kind rule.key)⟩
        simp [Option.filter, hexpired]
      · exact Or.inl (by simp [Option.filter, hexpired])
  · exact Or.inr ⟨by rw [hnone]; rfl,hlast⟩

/-- A rule that is set stands in the place of the one before. -/
theorem Agrees.set (h : m.Agrees calls s) {call : AffinityCall} {kind : AffinityKind}
    {rule : AffinityRule} (hrule : call.rule = some (kind,rule)) :
    (m.withStore ((m.store kind).put rule) kind).Agrees (calls ++ [call]) s := by
  intro kind' name
  rw [store_withStore, lastRule_concat, hrule]
  by_cases hkind : kind' = kind
  · subst hkind
    rw [if_pos rfl, Table.get?_put]
    by_cases hname : name = rule.key
    · subst hname
      exact Or.inl (by simp [Option.filter, Keyed.key])
    · have hkey : ¬name = Keyed.key rule := hname
      have hother := h kind' name
      rw [if_neg hkey]
      simpa [Option.filter, Ne.symm hname] using hother
  · have hother := h kind' name
    rw [if_neg hkind]
    simpa [Option.filter, Ne.symm hkind] using hother

theorem exec_of_rule {call : AffinityCall} {kind : AffinityKind} {rule : AffinityRule}
    (hrule : call.rule = some (kind,rule)) :
    m.exec call = m.withStore ((m.store kind).put rule) kind := by
  cases call with
  | setSession now sessionId regionId ttlSec => cases hrule; rfl
  | setModel now modelId regionId weight => cases hrule; rfl
  | setClient now clientId regionId ttlSec => cases hrule; rfl
  | _ => cases hrule

theorem Agrees.unset (h : m.Agrees calls s) {call : AffinityCall} (hrule : call.rule = none) :
    m.Agrees (calls ++ [call]) s := by
  intro kind name
  rw [lastRule_concat, hrule]
  exact h kind name

theorem Agrees.getSession (h : m.Agrees calls s) {now again : ℚ} (hagain : again ≤ s)
    (name : String) : (m.getSessionAffinity now again name).1.Agrees calls s := by
  obtain ⟨-,hsame | ⟨rule,hrule,hexpired,hnew⟩⟩ := getSessionAffinity_cases m now again name
  · rwa [hsame]
  · rw [hnew]
    exact h.erase hrule (hexpired.mono hagain)

theorem resolveAffinity_fst (m : RequestAffinityManager) (times : ResolveTimes)
    (sessionId modelId clientId : String) :
    (m.resolveAffinity times sessionId modelId clientId).1 =
      if sessionId = "" then m
      else (m.getSessionAffinity times.session times.again sessionId).1 := by
  rw [resolveAffinity]
  split_ifs <;> rfl

theorem Agrees.exec (h : m.Agrees calls s) {call : AffinityCall} (hcall : call.Within s t) :
    (m.exec call).Agrees (calls ++ [call]) t := by
  cases hrule : call.rule with
  | some r =>
    have hst : s ≤ t := by
      cases call with
      | setSession now sessionId regionId ttlSec => exact hcall.1.trans hcall.2
      | setModel now modelId regionId weight => exact hcall.1.trans hcall.2
      | setClient now clientId regionId ttlSec => exact hcall.1.trans hcall.2
      | _ => cases hrule
    rw [exec_of_rule hrule]
    exact (h.mono hst).set hrule
  | none =>
    refine Agrees.unset ?_ hrule
    cases call with
    | getSession now again sessionId =>
      obtain ⟨hnow,hagain,ht⟩ := hcall
      exact (h.mono (hnow.trans (hagain.trans ht))).getSession ht sessionId
    | getModel now modelId => exact h.mono (hcall.1.trans hcall.2)
    | getClient now clientId => exact h.mono (hcall.1.trans hcall.2)
    | resolve times sessionId modelId clientId =>
      obtain ⟨h₁,h₂,h₃,h₄,h₅⟩ := hcall
      have hagain := h₃.trans (h₄.trans h₅)
      have ht := h.mono (h₁.trans (h₂.trans hagain))
      rw [RequestAffinityManager.exec, resolveAffinity_fst]
      split_ifs
      · exact ht
      · exact ht.getSession hagain sessionId
    | cleanup clock =>
      have hst := (hcall .session "").1.trans (hcall .session "").2
      exact (h.mono hst).cleanup fun kind name => (hcall kind name).2
    | _ => cases hrule

theorem asked_congr {name : String} {region region' : Option String}
    (h : name ≠ "" → region = region') : asked name region = asked name region' := by
  rw [asked, asked]
  split_ifs with hname
  · rfl
  · rw [h hname]

/-- Each answer is the one told by the rules set last. -/
theorem Agrees.answer_eq (h : m.Agrees calls s) {call : AffinityCall} (hcall : call.Within s t) :
    m.answer call = told calls call := by
  cases call with
  | getSession now again sessionId =>
    exact (getSessionAffinity_cases m now again sessionId).1.trans
      (h.target_eq hcall.1 .session sessionId)
  | getModel now modelId => exact h.target_eq hcall.1 .model modelId
  | getClient now clientId => exact h.target_eq hcall.1 .client clientId
  | resolve times sessionId modelId clientId =>
    obtain ⟨h₁,h₂,h₃,h₄,-⟩ := hcall
    rw [answer, resolveAffinity]
    by_cases hname : sessionId = ""
    · have hmodel := h.target_eq (h₁.trans (h₂.trans h₃)) .model modelId
      have hclient := h.target_eq (h₁.trans (h₂.trans (h₃.trans h₄))) .client clientId
      rw [if_pos hname]
      change ((asked _ _).or (asked _ (target _ _))).or (asked _ (target _ _)) = _
      rw [told, ← hmodel, ← hclient, asked_congr fun hne => absurd hname hne]
      rfl
    · have hsession := h.target_eq h₁ .session sessionId
      have hleft := @Agrees.getSession _ _ _ (h.mono (h₁.trans h₂)) times.session _ le_rfl sessionId
      have hmodel := hleft.target_eq h₃ .model modelId
      have hclient := hleft.target_eq (h₃.trans h₄) .client clientId
      rw [if_neg hname]
      change ((asked _ _).or (asked _ (target _ _))).or (asked _ (target _ _)) = _
      rw [told, ← hmodel, ← hclient, ← hsession, (getSessionAffinity_cases ..).1]
      rfl
  | _ => rfl

theorem agrees_run {before calls : List AffinityCall} {call : AffinityCall}
    (h : m.Agrees before s) (hcalls : Forward s (calls ++ [call])) :
    ∃ t u, (run exec m calls).Agrees (before ++ calls) t ∧ call.Within t u := by
  induction calls generalizing m s before with
  | nil =>
    obtain ⟨u,hcall,-⟩ := hcalls
    exact ⟨s,u,by rwa [List.append_nil],hcall⟩
  | cons first calls ih =>
    obtain ⟨t,hfirst,hrest⟩ := hcalls
    have hrun := ih (h.exec hfirst) hrest
    rwa [List.append_assoc] at hrun

/-- While the clock does not go back, each answer is the one that follows from the rules set last
for the names asked for: neither the clean-ups nor what other calls deleted can be told from it. -/
theorem answer_after {calls : List AffinityCall} {call : AffinityCall} {s : ℚ}
    (h : Forward s (calls ++ [call])) : (run exec {} calls).answer call = told calls call := by
  have hnew : Agrees {} [] s := fun kind name => by cases kind <;> exact Or.inl rfl
  obtain ⟨t,u,hagrees,hcall⟩ := agrees_run hnew h
  exact hagrees.answer_eq hcall

/-- A session whose rule has expired and is cleaned up, and a model whose rule still stands. -/
theorem answer_after_cleanup :
    (run exec {} [.setSession 0 "s" "eu" 10,.setModel 0 "m" "us" 1,.cleanup fun _ _ => 20]).answer
      (.resolve ⟨30,31,32,33⟩ "s" "m" "") = some "us" := by
  have hforward : Forward 0 ([.setSession 0 "s" "eu" 10,.setModel 0 "m" "us" 1,
      .cleanup fun _ _ => 20] ++ [.resolve ⟨30,31,32,33⟩ "s" "m" ""]) :=
    ⟨0,⟨le_rfl,le_rfl⟩,0,⟨le_rfl,le_rfl⟩,20,fun _ _ => ⟨by norm_num,le_rfl⟩,33,
      by norm_num [Within],trivial⟩
  exact (answer_after hforward).trans (by decide +kernel)

end RequestAffinityManager
end Arsonist.Routing
