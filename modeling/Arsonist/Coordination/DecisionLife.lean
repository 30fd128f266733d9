import Mathlib.Logic.Relation
import Arsonist.Coordination.DecisionEngine

/-! The life of a proposal. `execute` looks at the status; a vote, an approval without votes and
the completion do not: each of them can be repeated, or come when it is too late. -/
namespace Arsonist.Coordination
open Arsonist.Library

/-- One step forward. -/
inductive DecisionStatus.Moves : DecisionStatus → DecisionStatus → Prop where
  | approve : Moves .proposed .approved
  | reject : Moves .proposed .rejected
  | start : Moves .approved .executing
  | complete : Moves .executing .completed
  | fail : Moves .executing .failed

def DecisionStatus.Forward : DecisionStatus → DecisionStatus → Prop :=
  Relation.ReflTransGen Moves

instance : Trans DecisionStatus.Forward DecisionStatus.Forward DecisionStatus.Forward where
  trans := Relation.ReflTransGen.trans

/-- How far a proposal has come; the engine does not keep it to the end. -/
def progress : Option DecisionStatus → ℕ
  | some .proposed => 0
  | some .approved => 1
  | some .executing => 2
  | _ => 3

/-- What a call does to the proposal that it is about. -/
inductive Effect where
  | proposed
  | refused
  | counted
  | approved
  | rejected
  | started
  | done (success : Bool)
  deriving DecidableEq

namespace Effect

/-- The status of the proposal afterwards, as long as the engine keeps it. -/
def after : Effect → Option DecisionStatus → Option DecisionStatus
  | proposed, _ => some .proposed
  | refused, st => st
  | counted, st => st
  | approved, _ => some .approved
  | rejected, _ => none
  | started, _ => some .executing
  | done _, _ => none

/-- How far a proposal must have come for the effect, if it is one that goes on. -/
def level : Effect → Option ℕ
  | approved => some 0
  | rejected => some 0
  | started => some 1
  | done _ => some 2
  | _ => none

/-- The status of the proposal that is returned. -/
def shown : Effect → Option DecisionStatus → Option DecisionStatus
  | proposed, _ => some .proposed
  | refused, _ => none
  | counted, st => st
  | approved, _ => some .approved
  | rejected, _ => some .rejected
  | started, _ => some .executing
  | done success, _ => some (if success then .completed else .failed)

theorem after_of_level {f : Effect} (h : f.level = none) (hf : f ≠ proposed)
    (st : Option DecisionStatus) : f.after st = st := by
  cases f with
  | proposed => exact absurd rfl hf
  | refused => rfl
  | counted => rfl
  | approved => cases h
  | rejected => cases h
  | started => cases h
  | done success => cases h

theorem after_of_shown {f : Effect} {st : DecisionStatus} (h : f.shown (some st) = none) :
    f.after (some st) = some st := by
  cases f with
  | refused => rfl
  | proposed => cases h
  | counted => cases h
  | approved => cases h
  | rejected => cases h
  | started => cases h
  | done success => cases h

end Effect

namespace DistributedDecisionEngine
variable (e : DistributedDecisionEngine)

/-- The status of a proposal that is neither completed nor rejected. -/
def status (id : String) : Option DecisionStatus :=
  (e.proposals.get? id).map DecisionProposal.status

def effect : DecisionCall → Effect
  | .propose _ _ => .proposed
  | .vote _ id approve =>
    match e.proposals.get? id with
    | none => .refused
    | some p =>
      if (p.voted approve).quorumNeeded ≤ (p.voted approve).votesFor then .approved
      else if (p.voted approve).quorumNeeded ≤ (p.voted approve).votesAgainst then .rejected
      else .counted
  | .autoApprove _ id => if (e.proposals.get? id).isSome then .approved else .refused
  | .execute _ id => if e.status id = some .approved then .started else .refused
  | .complete _ id success =>
    if (e.proposals.get? id).isSome then .done success else .refused

@[simp] theorem voted_proposalId (p : DecisionProposal) (approve : Bool) :
    (p.voted approve).proposalId = p.proposalId := by
  cases approve <;> rfl

@[simp] theorem voted_status (p : DecisionProposal) (approve : Bool) :
    (p.voted approve).status = p.status := by
  cases approve <;> rfl

@[simp] theorem voted_quorumNeeded (p : DecisionProposal) (approve : Bool) :
    (p.voted approve).quorumNeeded = p.quorumNeeded := by
  cases approve <;> rfl

theorem le_votesFor_voted (p : DecisionProposal) (approve : Bool) :
    p.votesFor ≤ (p.voted approve).votesFor := by
  cases approve
  · exact le_rfl
  · exact (lt_add_one p.votesFor).le

@[simp] theorem proposals_addEvent (now : ℚ) (type id : String) (extra : Json.Object) :
    (e.addEvent now type id extra).proposals = e.proposals := rfl

@[simp] theorem proposals_finalize (p : DecisionProposal) :
    (e.finalize p).proposals = e.proposals.erase p.proposalId := rfl

@[simp] theorem proposals_setProposal (p : DecisionProposal) :
    (e.setProposal p).proposals = e.proposals.put p := rfl

theorem key_eq (p : DecisionProposal) : Keyed.key p = p.proposalId := rfl

variable {e} in
/-- Nothing happens without the proposal. -/
theorem call_of_get?_none {c : DecisionCall} (hc : c.proposes = none)
    (h : e.proposals.get? c.proposalId = none) : e.call c = (e,none) := by
  cases c with
  | propose now p => cases hc
  | vote now id approve =>
    change e.proposals.get? id = none at h
    rw [call, vote, h]
  | autoApprove now id =>
    change e.proposals.get? id = none at h
    rw [call, autoApprove, h]
  | execute now id =>
    change e.proposals.get? id = none at h
    rw [call, execute, h]
  | complete now id success =>
    change e.proposals.get? id = none at h
    rw [call, complete, h]

/-- A call changes no proposal but the one that it is about. -/
theorem get?_exec_of_ne {c : DecisionCall} {id : String} (h : id ≠ c.proposalId) :
    (e.exec c).proposals.get? id = e.proposals.get? id := by
  cases c with
  | propose now p => exact (Table.get?_put _ _ _).trans (if_neg h)
  | vote now id' approve =>
    change id ≠ id' at h
    rw [exec, call, vote]
    cases hget : e.proposals.get? id' with
    | none => rfl
    | some p =>
      have hkey : p.proposalId = id' := Table.key_of_get? hget
      dsimp only
      split_ifs <;>
        simp [Table.get?_put, Table.get?_erase, key_eq, hkey, h]
  | autoApprove now id' =>
    change id ≠ id' at h
    rw [exec, call, autoApprove]
    cases hget : e.proposals.get? id' with
    | none => rfl
    | some p =>
      have hkey : p.proposalId = id' := Table.key_of_get? hget
      simp [Table.get?_put, key_eq, hkey, h]
  | execute now id' =>
    change id ≠ id' at h
    rw [exec, call, execute]
    cases hget : e.proposals.get? id' with
    | none => rfl
    | some p =>
      have hkey : p.proposalId = id' := Table.key_of_get? hget
      dsimp only
      split_ifs <;> simp [Table.get?_put, key_eq, hkey, h]
  | complete now id' success =>
    change id ≠ id' at h
    rw [exec, call, complete]
    cases hget : e.proposals.get? id' with
    | none => rfl
    | some p =>
      have hkey : p.proposalId = id' := Table.key_of_get? hget
      simp [Table.get?_put, Table.get?_erase, key_eq, hkey, h]

theorem status_exec_of_ne {c : DecisionCall} {id : String} (h : id ≠ c.proposalId) :
    (e.exec c).status id = e.status id := by
  rw [status, get?_exec_of_ne e h, status]

/-- What a call does to the proposal that it is about, and what it returns. -/
theorem status_exec (c : DecisionCall) :
    (e.exec c).status c.proposalId = (e.effect c).after (e.status c.proposalId) ∧
      (e.answer c).map DecisionProposal.status = (e.effect c).shown (e.status c.proposalId) := by
  cases c with
  | propose now p =>
    have hget := (Table.get?_put e.proposals (e.propose now p).2 p.proposalId).trans (if_pos rfl)
    exact ⟨congrArg (Option.map DecisionProposal.status) hget,rfl⟩
  | vote now id approve =>
    rw [DecisionCall.proposalId, exec, answer, call, vote, status, status, effect]
    cases hget : e.proposals.get? id with
    | none => exact ⟨congrArg (Option.map DecisionProposal.status) hget,rfl⟩
    | some p =>
      have hkey : p.proposalId = id := Table.key_of_get? hget
      dsimp only
      split_ifs <;>
        simp [Table.get?_put, Table.get?_erase, key_eq, hkey, Effect.after, Effect.shown]
  | autoApprove now id =>
    rw [DecisionCall.proposalId, exec, answer, call, autoApprove, status, status, effect]
    cases hget : e.proposals.get? id with
    | none => exact ⟨congrArg (Option.map DecisionProposal.status) hget,rfl⟩
    | some p =>
      have hkey : p.proposalId = id := Table.key_of_get? hget
      simp [Table.get?_put, key_eq, hkey, Effect.after, Effect.shown]
  | execute now id =>
    rw [DecisionCall.proposalId, exec, answer, call, execute, effect, status, status]
    cases hget : e.proposals.get? id with
    | none => exact ⟨congrArg (Option.map DecisionProposal.status) hget,rfl⟩
    | some p =>
      have hkey : p.proposalId = id := Table.key_of_get? hget
      by_cases hst : p.status = .approved <;>
        simp [Table.get?_put, key_eq, hkey, hst, hget, Effect.after, Effect.shown]
  | complete now id success =>
    rw [DecisionCall.proposalId, exec, answer, call, complete, status, status, effect]
    cases hget : e.proposals.get? id with
    | none => exact ⟨congrArg (Option.map DecisionProposal.status) hget,rfl⟩
    | some p =>
      have hkey : p.proposalId = id := Table.key_of_get? hget
      simp [Table.get?_erase, hkey, Effect.after, Effect.shown]

/-- The counters count the effects. -/
theorem totals_exec (c : DecisionCall) :
    (e.exec c).totalApproved = e.totalApproved+(if e.effect c = .approved then 1 else 0) ∧
    (e.exec c).totalRejected = e.totalRejected+(if e.effect c = .rejected then 1 else 0) ∧
    (e.exec c).totalExecuted =
      e.totalExecuted+(if e.effect c = .done true ∨ e.effect c = .done false then 1 else 0) := by
  cases c with
  | propose now p => exact ⟨rfl,rfl,rfl⟩
  | vote now id approve =>
    rw [exec, call, vote, effect]
    cases e.proposals.get? id with
    | none => exact ⟨rfl,rfl,rfl⟩
    | some p =>
      by_cases hfor : p.quorumNeeded ≤ (p.voted approve).votesFor
      · simp [hfor, addEvent, setProposal]
      · by_cases hagainst : p.quorumNeeded ≤ (p.voted approve).votesAgainst <;>
          simp [hfor, hagainst, addEvent, finalize, setProposal]
  | autoApprove now id =>
    rw [exec, call, autoApprove, effect]
    cases e.proposals.get? id with
    | none => exact ⟨rfl,rfl,rfl⟩
    | some p => simp [addEvent, setProposal]
  | execute now id =>
    rw [exec, call, execute, effect, status]
    cases e.proposals.get? id with
    | none => exact ⟨rfl,rfl,rfl⟩
    | some p =>
      by_cases hst : p.status = .approved <;> simp [hst, setProposal]
  | complete now id success =>
    rw [exec, call, complete, effect]
    cases e.proposals.get? id with
    | none => exact ⟨rfl,rfl,rfl⟩
    | some p => cases success <;> simp [addEvent, finalize, setProposal]

/-- A vote comes before the decision, an approval too, and a completion comes for a proposal that
is executing; or there is no such proposal any more. -/
def Orderly : DecisionCall → Prop
  | .propose _ _ => True
  | .vote _ id _ => e.status id = none ∨ e.status id = some .proposed
  | .autoApprove _ id => e.status id = none ∨ e.status id = some .proposed
  | .execute _ _ => True
  | .complete _ id _ => e.status id = none ∨ e.status id = some .executing

instance : (c : DecisionCall) → Decidable (e.Orderly c)
  | .propose _ _ => .isTrue trivial
  | .vote _ _ _ => inferInstanceAs (Decidable (_ ∨ _))
  | .autoApprove _ _ => inferInstanceAs (Decidable (_ ∨ _))
  | .execute _ _ => .isTrue trivial
  | .complete _ _ _ => inferInstanceAs (Decidable (_ ∨ _))

variable {e}

theorem status_eq_none {id : String} : e.status id = none ↔ e.proposals.get? id = none := by
  rw [status, Option.map_eq_none_iff]

/-- An effect of an orderly call comes when the proposal has come as far as it must have, and
leads on from there. -/
theorem progress_of_level {c : DecisionCall} {r : ℕ} (h : e.Orderly c)
    (hr : (e.effect c).level = some r) : progress (e.status c.proposalId) = r ∧
      r < progress ((e.effect c).after (e.status c.proposalId)) := by
  cases c with
  | propose now p => cases hr
  | vote now id approve =>
    change e.status id = none ∨ e.status id = some .proposed at h
    rw [DecisionCall.proposalId]
    rw [effect] at hr ⊢
    cases hget : e.proposals.get? id with
    | none => rw [hget] at hr; cases hr
    | some p =>
      rw [hget] at hr
      have hst := h.resolve_left fun hnone => by rw [status_eq_none, hget] at hnone; cases hnone
      rw [hst]
      dsimp only at hr ⊢
      split_ifs at hr ⊢ <;> cases hr <;> exact ⟨rfl,by decide⟩
  | autoApprove now id =>
    change e.status id = none ∨ e.status id = some .proposed at h
    rw [DecisionCall.proposalId]
    rw [effect] at hr ⊢
    cases hget : e.proposals.get? id with
    | none => rw [hget] at hr; cases hr
    | some p =>
      rw [hget] at hr
      have hst := h.resolve_left fun hnone => by rw [status_eq_none, hget] at hnone; cases hnone
      rw [hst]
      cases hr
      exact ⟨rfl,Nat.zero_lt_one⟩
  | execute now id =>
    rw [DecisionCall.proposalId]
    rw [effect] at hr ⊢
    split_ifs at hr ⊢ with hst
    · rw [hst]
      cases hr
      exact ⟨rfl,by decide⟩
    · cases hr
  | complete now id success =>
    change e.status id = none ∨ e.status id = some .executing at h
    rw [DecisionCall.proposalId]
    rw [effect] at hr ⊢
    cases hget : e.proposals.get? id with
    | none => rw [hget] at hr; cases hr
    | some p =>
      rw [hget] at hr
      have hst := h.resolve_left fun hnone => by rw [status_eq_none, hget] at hnone; cases hnone
      rw [hst]
      cases hr
      exact ⟨rfl,Nat.lt_succ_self 2⟩

theorem proposes_of_effect {c : DecisionCall} (h : e.effect c = .proposed) :
    c.proposes = some c.proposalId := by
  cases c with
  | propose now p => rfl
  | vote now id approve =>
    rw [effect] at h
    cases hget : e.proposals.get? id with
    | none => rw [hget] at h; cases h
    | some p =>
      rw [hget] at h
      dsimp only at h
      split_ifs at h
  | autoApprove now id => rw [effect] at h; split_ifs at h
  | execute now id => rw [effect] at h; split_ifs at h
  | complete now id success => rw [effect] at h; split_ifs at h

/-- A proposal does not fall back. -/
theorem progress_le_exec {c : DecisionCall} {id : String} (h : e.Orderly c)
    (hc : c.proposes ≠ some id) : progress (e.status id) ≤ progress ((e.exec c).status id) := by
  by_cases hid : id = c.proposalId
  · subst hid
    rw [(e.status_exec c).1]
    cases hlevel : (e.effect c).level with
    | none =>
      rw [Effect.after_of_level hlevel fun heffect => hc (proposes_of_effect heffect)]
    | some r =>
      obtain ⟨hbefore,hafter⟩ := progress_of_level h hlevel
      omega
  · rw [status_exec_of_ne e hid]

/-- What an orderly call shows of a proposal is a move forward or none, and is what the engine
keeps of it. -/
theorem forward_of_shown {c : DecisionCall} {st st' : DecisionStatus} (h : e.Orderly c)
    (hc : c.proposes = none) (hst : e.status c.proposalId = some st)
    (hshown : (e.effect c).shown (some st) = some st') : st.Forward st' ∧
      ((e.effect c).after (some st) = some st' ∨ (e.effect c).after (some st) = none) := by
  have hlevel : ∀ r, (e.effect c).level = some r → progress (some st) = r := by
    intro r hr
    rw [← hst]
    exact (progress_of_level h hr).1
  cases heffect : e.effect c with
  | proposed =>
    rw [proposes_of_effect heffect] at hc
    cases hc
  | refused => rw [heffect] at hshown; cases hshown
  | counted =>
    rw [heffect] at hshown
    cases hshown
    exact ⟨.refl,Or.inl rfl⟩
  | approved =>
    rw [heffect] at hshown hlevel
    cases hshown
    have hprogress := hlevel 0 rfl
    cases st <;> cases hprogress
    exact ⟨.single .approve,Or.inl rfl⟩
  | rejected =>
    rw [heffect] at hshown hlevel
    cases hshown
    have hprogress := hlevel 0 rfl
    cases st <;> cases hprogress
    exact ⟨.single .reject,Or.inr rfl⟩
  | started =>
    rw [heffect] at hshown hlevel
    cases hshown
    have hprogress := hlevel 1 rfl
    cases st <;> cases hprogress
    exact ⟨.single .start,Or.inl rfl⟩
  | done success =>
    rw [heffect] at hshown hlevel
    cases hshown
    have hprogress := hlevel 2 rfl
    cases st <;> cases hprogress
    cases success
    · exact ⟨.single .fail,Or.inr rfl⟩
    · exact ⟨.single .complete,Or.inr rfl⟩

/-- The statuses of a proposal that the calls of a run show, in their order. -/
def shownStatuses (e : DistributedDecisionEngine) (calls : List DecisionCall) (id : String) :
    List DecisionStatus :=
  (steps exec e calls).filterMap fun x =>
    if x.2.proposalId = id then (x.1.answer x.2).map DecisionProposal.status else none

/-- The call starts the execution of a proposal. -/
def Starts (id : String) (e : DistributedDecisionEngine) (c : DecisionCall) : Prop :=
  c.executes = some id ∧ (e.answer c).isSome

/-- A call about a proposal raises a counter. -/
def Counts (f : DistributedDecisionEngine → ℕ) (id : String) (e : DistributedDecisionEngine)
    (c : DecisionCall) : Prop := c.proposalId = id ∧ f e < f (e.exec c)

instance (id : String) (e : DistributedDecisionEngine) (c : DecisionCall) :
    Decidable (Starts id e c) := inferInstanceAs (Decidable (_ ∧ _))

instance (f : DistributedDecisionEngine → ℕ) (id : String) (e : DistributedDecisionEngine)
    (c : DecisionCall) : Decidable (Counts f id e c) := inferInstanceAs (Decidable (_ ∧ _))

/-- In a run, each proposal only goes forward, is started and counted at most once, and is
completed only while it is executing. -/
structure CarriedOutOnce (e : DistributedDecisionEngine) (calls : List DecisionCall) : Prop where
  forward : ∀ id, (e.shownStatuses calls id).Pairwise DecisionStatus.Forward
  starts : ∀ id, occurrences exec (Starts id) e calls ≤ 1
  completes : Along exec (fun e c => ∀ id ∈ c.completes, (e.answer c).isSome →
    e.status id = some .executing) e calls
  approvals : ∀ id, occurrences exec (Counts totalApproved id) e calls ≤ 1
  rejections : ∀ id, occurrences exec (Counts totalRejected id) e calls ≤ 1
  executions : ∀ id, occurrences exec (Counts totalExecuted id) e calls ≤ 1

section Once
variable {id : String} {calls : List DecisionCall}

theorem level_of_starts {c : DecisionCall} (h : Starts id e c) :
    c.proposalId = id ∧ (e.effect c).level = some 1 := by
  obtain ⟨hid,hsome⟩ := h
  cases c with
  | execute now id' =>
    cases hid
    refine ⟨rfl,?_⟩
    have hshown := (e.status_exec (.execute now id)).2
    rw [effect] at hshown ⊢
    split_ifs at hshown ⊢
    · rfl
    · obtain ⟨p,hp⟩ := Option.isSome_iff_exists.mp hsome
      rw [hp] at hshown
      cases hshown
  | propose now p => cases hid
  | vote now id' approve => cases hid
  | autoApprove now id' => cases hid
  | complete now id' success => cases hid

theorem effect_of_counts_approved {c : DecisionCall} (h : Counts totalApproved id e c) :
    e.effect c = .approved := by
  by_contra heffect
  have hless := h.2
  rw [(e.totals_exec c).1, if_neg heffect] at hless
  exact lt_irrefl _ hless

theorem effect_of_counts_rejected {c : DecisionCall} (h : Counts totalRejected id e c) :
    e.effect c = .rejected := by
  by_contra heffect
  have hless := h.2
  rw [(e.totals_exec c).2.1, if_neg heffect] at hless
  exact lt_irrefl _ hless

theorem effect_of_counts_executed {c : DecisionCall} (h : Counts totalExecuted id e c) :
    e.effect c = .done true ∨ e.effect c = .done false := by
  by_contra heffect
  have hless := h.2
  rw [(e.totals_exec c).2.2, if_neg heffect] at hless
  exact lt_irrefl _ hless

/-- The calls before and after the one that proposes an id. -/
theorem split_at_proposal (hdistinct : (calls.filterMap DecisionCall.proposes).Nodup)
    (h : id ∈ calls.filterMap DecisionCall.proposes) : ∃ p c q, calls = p ++ c :: q ∧
      c.proposes = some id ∧ (∀ d ∈ p, d.proposes ≠ some id) ∧ ∀ d ∈ q, d.proposes ≠ some id := by
  obtain ⟨c,hc,hid⟩ := List.mem_filterMap.mp h
  obtain ⟨p,q,rfl⟩ := List.append_of_mem hc
  rw [List.filterMap_append, List.filterMap_cons_some hid, List.nodup_middle] at hdistinct
  have hnot := (List.nodup_cons.mp hdistinct).1
  refine ⟨p,c,q,rfl,hid,fun d hd hdid => hnot ?_,fun d hd hdid => hnot ?_⟩
  · exact List.mem_append_left _ (List.mem_filterMap.mpr ⟨d,hd,hdid⟩)
  · exact List.mem_append_right _ (List.mem_filterMap.mpr ⟨d,hd,hdid⟩)

/-- What must come at one point of a proposal's life and leads on from there comes at most
once. -/
theorem occurrences_le_one_of_level {P : DistributedDecisionEngine → DecisionCall → Prop}
    [∀ e c, Decidable (P e c)] {r : ℕ}
    (hP : ∀ e c, P e c → c.proposalId = id ∧ (effect e c).level = some r) (hr : r < 3)
    (hdistinct : (calls.filterMap DecisionCall.proposes).Nodup)
    (h : Along exec Orderly e calls) (hstart : e.status id = none) :
    occurrences exec P e calls ≤ 1 := by
  have hkeep : ∀ (e : DistributedDecisionEngine) (c : DecisionCall),
      e.Orderly c ∧ c.proposes ≠ some id → r < progress (e.status id) →
        r < progress ((e.exec c).status id) :=
    fun e c hC hD => hD.trans_le (progress_le_exec hC.1 hC.2)
  have hnever : ∀ (e : DistributedDecisionEngine) (c : DecisionCall),
      e.Orderly c ∧ c.proposes ≠ some id → r < progress (e.status id) → ¬ P e c := by
    intro e c hC hD hPc
    obtain ⟨rfl,hlevel⟩ := hP e c hPc
    exact hD.ne' (progress_of_level hC.1 hlevel).1
  have hafter : ∀ (e : DistributedDecisionEngine) (c : DecisionCall),
      e.Orderly c ∧ c.proposes ≠ some id → P e c → r < progress ((e.exec c).status id) := by
    intro e c hC hPc
    obtain ⟨rfl,hlevel⟩ := hP e c hPc
    rw [(e.status_exec c).1]
    exact (progress_of_level hC.1 hlevel).2
  by_cases hmem : id ∈ calls.filterMap DecisionCall.proposes
  · obtain ⟨p,c,q,rfl,hc,hp,hq⟩ := split_at_proposal hdistinct hmem
    obtain ⟨horderp,horderc,horderq⟩ := (along_append _ _ _ _).mp h
    have hbefore := occurrences_eq_zero_of_done hkeep hnever (show r < progress (e.status id) by
      rw [hstart]; exact hr) ((along_and _ _ _ _).mpr ⟨horderp,along_of_forall hp e⟩)
    have hlater := occurrences_le_one hafter hkeep hnever
      ((along_and _ _ _ _).mpr ⟨horderq,along_of_forall hq _⟩)
    have hnow : ¬ P (run exec e p) c := by
      intro hPc
      have hlevel := (hP _ c hPc).2
      cases c with
      | propose now d => cases hlevel
      | vote now id' approve => cases hc
      | autoApprove now id' => cases hc
      | execute now id' => cases hc
      | complete now id' success => cases hc
    rw [occurrences_append, occurrences_cons, hbefore, if_neg hnow]
    omega
  · have hnone : ∀ c ∈ calls, c.proposes ≠ some id :=
      fun c hc hid => hmem (List.mem_filterMap.mpr ⟨c,hc,hid⟩)
    exact occurrences_le_one hafter hkeep hnever
      ((along_and _ _ _ _).mpr ⟨h,along_of_forall hnone e⟩)

theorem proposes_eq_none {c : DecisionCall} (h : c.proposes ≠ some c.proposalId) :
    c.proposes = none := by
  cases c with
  | propose now p => exact absurd rfl h
  | vote now id approve => rfl
  | autoApprove now id => rfl
  | execute now id => rfl
  | complete now id success => rfl

/-- Nothing is shown of a proposal that the engine does not have, and it does not come back. -/
theorem shown_of_none {c : DecisionCall} (h : e.Orderly c) (hc : c.proposes = none)
    (hst : e.status c.proposalId = none) :
    (e.effect c).shown none = none ∧ (e.effect c).after none = none := by
  have hlevel : ∀ r, (e.effect c).level = some r → 3 = r := by
    intro r hr
    have hprogress := (progress_of_level h hr).1
    rw [hst] at hprogress
    exact hprogress
  cases heffect : e.effect c with
  | proposed =>
    rw [proposes_of_effect heffect] at hc
    cases hc
  | refused => exact ⟨rfl,rfl⟩
  | counted => exact ⟨rfl,rfl⟩
  | approved => rw [heffect] at hlevel; cases hlevel 0 rfl
  | rejected => rw [heffect] at hlevel; cases hlevel 0 rfl
  | started => rw [heffect] at hlevel; cases hlevel 1 rfl
  | done success => rw [heffect] at hlevel; cases hlevel 2 rfl

theorem shownStatuses_cons (e : DistributedDecisionEngine) (c : DecisionCall)
    (calls : List DecisionCall) (id : String) : e.shownStatuses (c :: calls) id =
      (if c.proposalId = id then (e.answer c).map DecisionProposal.status else none).toList ++
        (e.exec c).shownStatuses calls id := by
  rw [shownStatuses, steps_cons, List.filterMap_cons]
  dsimp only
  cases (if c.proposalId = id then (e.answer c).map DecisionProposal.status else none) <;> rfl

/-- After it was proposed, a proposal goes forward. -/
theorem forward_shown (h : Along exec (fun e c => e.Orderly c ∧ c.proposes ≠ some id) e calls) :
    (e.shownStatuses calls id).Pairwise DecisionStatus.Forward ∧
      ∀ st' ∈ e.shownStatuses calls id, ∃ st, e.status id = some st ∧ st.Forward st' := by
  induction calls generalizing e with
  | nil => exact ⟨List.Pairwise.nil,fun st' hst' => absurd hst' List.not_mem_nil⟩
  | cons c calls ih =>
    obtain ⟨⟨horder,hc⟩,hrest⟩ := h
    obtain ⟨hpairwise,hlater⟩ := ih hrest
    rw [shownStatuses_cons]
    by_cases hid : c.proposalId = id
    · subst hid
      have hnone := proposes_eq_none hc
      obtain ⟨hafter,hanswer⟩ := e.status_exec c
      rw [if_pos rfl, hanswer]
      rw [hafter] at hlater
      cases hst : e.status c.proposalId with
      | none =>
        obtain ⟨hshown,hkept⟩ := shown_of_none horder hnone hst
        rw [hst, hkept] at hlater
        rw [hshown]
        exact ⟨hpairwise,hlater⟩
      | some st =>
        rw [hst] at hlater
        cases hshown : (e.effect c).shown (some st) with
        | none =>
          rw [Effect.after_of_shown hshown] at hlater
          exact ⟨hpairwise,hlater⟩
        | some st' =>
          obtain ⟨hforward,hkept⟩ := forward_of_shown horder hnone hst hshown
          have hrest : ∀ st'' ∈ (e.exec c).shownStatuses calls c.proposalId, st'.Forward st'' := by
            intro st'' hst''
            obtain ⟨st₀,hst₀,hforward'⟩ := hlater st'' hst''
            rcases hkept with hkept | hkept <;> rw [hkept] at hst₀ <;> cases hst₀
            exact hforward'
          refine ⟨List.pairwise_cons.mpr ⟨hrest,hpairwise⟩,fun st'' hst'' => ⟨st,rfl,?_⟩⟩
          obtain rfl | hst'' := List.mem_cons.mp hst''
          · exact hforward
          · exact hforward.trans (hrest st'' hst'')
    · rw [if_neg hid]
      rw [status_exec_of_ne e (Ne.symm hid)] at hlater
      exact ⟨hpairwise,hlater⟩

theorem shownStatuses_append (e : DistributedDecisionEngine) (p q : List DecisionCall)
    (id : String) : e.shownStatuses (p ++ q) id =
      e.shownStatuses p id ++ (run exec e p).shownStatuses q id := by
  rw [shownStatuses, steps_append, List.filterMap_append]
  rfl

theorem pairwise_shownStatuses (hdistinct : (calls.filterMap DecisionCall.proposes).Nodup)
    (h : Along exec Orderly e calls) (hstart : e.status id = none) :
    (e.shownStatuses calls id).Pairwise DecisionStatus.Forward := by
  by_cases hmem : id ∈ calls.filterMap DecisionCall.proposes
  · obtain ⟨p,c,q,rfl,hc,hp,hq⟩ := split_at_proposal hdistinct hmem
    obtain ⟨horderp,-,horderq⟩ := (along_append _ _ _ _).mp h
    have hbefore := (forward_shown ((along_and _ _ _ _).mpr ⟨horderp,along_of_forall hp e⟩)).2
    obtain ⟨hpairwise,hlater⟩ :=
      forward_shown ((along_and _ _ _ _).mpr ⟨horderq,along_of_forall hq _⟩)
    have hnil : e.shownStatuses p id = [] := by
      refine List.eq_nil_iff_forall_not_mem.mpr fun st' hst' => ?_
      obtain ⟨st,hst,-⟩ := hbefore st' hst'
      rw [hstart] at hst
      cases hst
    cases c with
    | propose now d =>
      cases hc
      have hstatus := ((run exec e p).status_exec (.propose now d)).1
      change (exec (run exec e p) (.propose now d)).status d.proposalId = some .proposed at hstatus
      rw [shownStatuses_append, hnil, List.nil_append, shownStatuses_cons]
      rw [if_pos (show (DecisionCall.propose now d).proposalId = d.proposalId from rfl),
        ((run exec e p).status_exec (.propose now d)).2]
      refine List.pairwise_cons.mpr ⟨fun st' hst' => ?_,hpairwise⟩
      obtain ⟨st,hst,hforward⟩ := hlater st' hst'
      rw [hstatus] at hst
      cases hst
      exact hforward
    | vote now id' approve => cases hc
    | autoApprove now id' => cases hc
    | execute now id' => cases hc
    | complete now id' success => cases hc
  · have hnone : ∀ c ∈ calls, c.proposes ≠ some id :=
      fun c hc hid => hmem (List.mem_filterMap.mpr ⟨c,hc,hid⟩)
    exact (forward_shown ((along_and _ _ _ _).mpr ⟨h,along_of_forall hnone e⟩)).1

/-- Only a call that proposes leaves a proposal where none was. -/
theorem exists_get?_of_exec {c : DecisionCall} {p' : DecisionProposal} (hc : c.proposes = none)
    (h : (e.exec c).proposals.get? c.proposalId = some p') :
    ∃ p, p.proposalId = c.proposalId ∧ e.proposals.get? c.proposalId = some p := by
  cases hget : e.proposals.get? c.proposalId with
  | none =>
    rw [exec, call_of_get?_none hc hget, hget] at h
    cases h
  | some p => exact ⟨p,Table.key_of_get? hget,rfl⟩

/-- The proposal that a call leaves was proposed or approved by the call, or has at least the
votes that it had, and its status is the one that it had or follows on an approval. -/
theorem get?_exec {c : DecisionCall} {p' : DecisionProposal}
    (h : (e.exec c).proposals.get? c.proposalId = some p') :
    p'.status = .proposed ∨
      e.effect c = .approved ∧ p'.status = .approved ∧ p'.quorumNeeded ≤ p'.votesFor ∨
      ∃ p, e.proposals.get? c.proposalId = some p ∧ p'.quorumNeeded = p.quorumNeeded ∧
        p.votesFor ≤ p'.votesFor ∧
        (p'.status = p.status ∨ p.status = .approved ∧ p'.status = .executing) := by
  cases c with
  | propose now d =>
    have hget := (Table.get?_put e.proposals (e.propose now d).2 d.proposalId).trans (if_pos rfl)
    rw [Option.some.inj (h.symm.trans hget)]
    exact Or.inl rfl
  | vote now id approve =>
    obtain ⟨p,hkey,hget⟩ := exists_get?_of_exec rfl h
    rw [DecisionCall.proposalId] at h hkey hget ⊢
    rw [exec, call, vote, hget] at h
    rw [effect, hget]
    dsimp only at h ⊢
    split_ifs at h ⊢ with hfor hagainst
    · simp [Table.get?_put, key_eq, hkey] at h
      rw [← h]
      exact Or.inr (Or.inl ⟨rfl,rfl,by simpa using hfor⟩)
    · simp [Table.get?_erase, hkey] at h
    · simp [Table.get?_put, key_eq, hkey] at h
      rw [← h]
      exact Or.inr (Or.inr ⟨p,rfl,by simp,le_votesFor_voted p approve,Or.inl (by simp)⟩)
  | autoApprove now id =>
    obtain ⟨p,hkey,hget⟩ := exists_get?_of_exec rfl h
    rw [DecisionCall.proposalId] at h hkey hget ⊢
    rw [exec, call, autoApprove, hget] at h
    rw [effect, hget]
    simp [Table.get?_put, key_eq, hkey] at h
    rw [← h]
    exact Or.inr (Or.inl ⟨rfl,rfl,le_rfl⟩)
  | execute now id =>
    obtain ⟨p,hkey,hget⟩ := exists_get?_of_exec rfl h
    rw [DecisionCall.proposalId] at h hkey hget ⊢
    rw [exec, call, execute, hget] at h
    dsimp only at h
    split_ifs at h with hst
    · rw [hget] at h
      rw [← Option.some.inj h]
      exact Or.inr (Or.inr ⟨p,hget,rfl,le_rfl,Or.inl rfl⟩)
    · simp [Table.get?_put, key_eq, hkey] at h
      rw [← h]
      exact Or.inr (Or.inr ⟨p,hget,rfl,le_rfl,Or.inr ⟨not_ne_iff.mp hst,rfl⟩⟩)
  | complete now id success =>
    obtain ⟨p,hkey,hget⟩ := exists_get?_of_exec rfl h
    rw [DecisionCall.proposalId] at h hkey hget ⊢
    rw [exec, call, complete, hget] at h
    simp [Table.get?_erase, hkey] at h

/-- A proposal that is no longer proposed was approved, and that was counted. -/
theorem counted_of_decided (hempty : e.proposals = Table.empty) {p : DecisionProposal}
    (h : (run exec e calls).proposals.get? id = some p) : p.status = .proposed ∨
      (p.status = .approved ∨ p.status = .executing) ∧ p.quorumNeeded ≤ p.votesFor ∧
        1 ≤ occurrences exec (Counts totalApproved id) e calls := by
  induction calls using List.reverseRecOn generalizing p with
  | nil =>
    rw [run_nil, hempty] at h
    cases h
  | append_singleton calls c ih =>
    rw [run_concat] at h
    rw [occurrences_concat]
    by_cases hid : id = c.proposalId
    · subst hid
      obtain hst | ⟨heffect,hst,hvotes⟩ | ⟨d,hd,hquorum,hvotes,hst⟩ := get?_exec h
      · exact Or.inl hst
      · have hcounts : Counts totalApproved c.proposalId (run exec e calls) c := by
          refine ⟨rfl,?_⟩
          rw [((run exec e calls).totals_exec c).1, if_pos heffect]
          exact Nat.lt_succ_self _
        rw [if_pos hcounts]
        exact Or.inr ⟨Or.inl hst,hvotes,Nat.le_add_left 1 _⟩
      · obtain hproposed | ⟨hdecided,hfor,hcounted⟩ := ih hd
        · obtain hst | ⟨hst,-⟩ := hst
          · exact Or.inl (hst.trans hproposed)
          · rw [hst] at hproposed
            cases hproposed
        · refine Or.inr ⟨?_,by omega,by omega⟩
          obtain hst | ⟨-,hst⟩ := hst
          · rw [hst]
            exact hdecided
          · exact Or.inr hst
    · rw [get?_exec_of_ne _ hid] at h
      exact (ih h).imp_right fun ⟨hdecided,hfor,hcounted⟩ => ⟨hdecided,hfor,by omega⟩

/-- A second approval of one proposal is counted twice. -/
theorem two_le_occurrences {p q : List DecisionCall} {c : DecisionCall}
    (hcounted : 1 ≤ occurrences exec (Counts totalApproved c.proposalId) e p)
    (heffect : (run exec e p).effect c = .approved) :
    2 ≤ occurrences exec (Counts totalApproved c.proposalId) e (p ++ c :: q) := by
  have hcounts : Counts totalApproved c.proposalId (run exec e p) c := by
    refine ⟨rfl,?_⟩
    rw [((run exec e p).totals_exec c).1, if_pos heffect]
    exact Nat.lt_succ_self _
  rw [occurrences_append, occurrences_cons, if_pos hcounts]
  omega

theorem CarriedOutOnce.orderly (hempty : e.proposals = Table.empty)
    (h : CarriedOutOnce e calls) : Along exec Orderly e calls := by
  rw [along_iff]
  rintro p c q rfl
  -- a proposal that was decided would be approved and counted again
  have happrove : ∀ d : DecisionProposal, c.proposalId = d.proposalId →
      (run exec e p).proposals.get? d.proposalId = some d →
      (d.status ≠ .proposed → d.quorumNeeded ≤ d.votesFor → (run exec e p).effect c = .approved) →
      (run exec e p).status d.proposalId = some .proposed := by
    intro d hid hd heffect
    rw [status, hd]
    obtain hst | ⟨hdecided,hvotes,hcounted⟩ := counted_of_decided hempty hd
    · exact congrArg some hst
    · have hst : d.status ≠ .proposed := by
        rcases hdecided with hst | hst <;> rw [hst] <;> decide
      rw [← hid] at hcounted
      have htwo := two_le_occurrences (q := q) hcounted (heffect hst hvotes)
      have hone := h.approvals c.proposalId
      omega
  cases c with
  | propose now d => trivial
  | execute now id => trivial
  | vote now id approve =>
    cases hget : (run exec e p).proposals.get? id with
    | none => exact Or.inl (status_eq_none.mpr hget)
    | some d =>
      have hkey : d.proposalId = id := Table.key_of_get? hget
      subst hkey
      refine Or.inr (happrove d rfl hget fun _ hvotes => ?_)
      have hmore := le_votesFor_voted d approve
      rw [effect, hget]
      dsimp only
      rw [voted_quorumNeeded, if_pos (by omega)]
  | autoApprove now id =>
    cases hget : (run exec e p).proposals.get? id with
    | none => exact Or.inl (status_eq_none.mpr hget)
    | some d =>
      have hkey : d.proposalId = id := Table.key_of_get? hget
      subst hkey
      refine Or.inr (happrove d rfl hget fun _ _ => ?_)
      rw [effect, hget]
      rfl
  | complete now id success =>
    cases hget : (run exec e p).proposals.get? id with
    | none => exact Or.inl (status_eq_none.mpr hget)
    | some d =>
      refine Or.inr ((along_iff _ _ _).mp h.completes p _ q rfl id rfl ?_)
      rw [answer, call, complete, hget]
      rfl

theorem CarriedOutOnce.of_orderly (hempty : e.proposals = Table.empty)
    (hdistinct : (calls.filterMap DecisionCall.proposes).Nodup)
    (h : Along exec Orderly e calls) : CarriedOutOnce e calls := by
  have hstart : ∀ id, e.status id = none := fun id => by rw [status, hempty]; rfl
  refine ⟨fun id => pairwise_shownStatuses hdistinct h (hstart id),fun id => ?_,?_,fun id => ?_,
    fun id => ?_,fun id => ?_⟩
  · exact occurrences_le_one_of_level (fun e c => level_of_starts) (by omega) hdistinct h
      (hstart id)
  · refine h.mono fun e c horder id hid hsome => ?_
    cases c with
    | complete now id' success =>
      cases hid
      refine (horder : _ ∨ _).resolve_left fun hnone => ?_
      rw [answer, call_of_get?_none rfl (status_eq_none.mp hnone)] at hsome
      cases hsome
    | propose now d => cases hid
    | vote now id' approve => cases hid
    | autoApprove now id' => cases hid
    | execute now id' => cases hid
  · refine occurrences_le_one_of_level (r := 0) (fun e c hc => ⟨hc.1,?_⟩) (by omega) hdistinct h
      (hstart id)
    rw [effect_of_counts_approved hc]
    rfl
  · refine occurrences_le_one_of_level (r := 0) (fun e c hc => ⟨hc.1,?_⟩) (by omega) hdistinct h
      (hstart id)
    rw [effect_of_counts_rejected hc]
    rfl
  · refine occurrences_le_one_of_level (r := 2) (fun e c hc => ⟨hc.1,?_⟩) (by omega) hdistinct h
      (hstart id)
    rcases effect_of_counts_executed hc with heffect | heffect <;> rw [heffect] <;> rfl

/-- In a run whose proposals have distinct ids, each decision is carried out at most once exactly
when votes and approvals come before the decision and completions after the start. -/
theorem carriedOutOnce_iff (quorumSize maxHistory : ℤ) (calls : List DecisionCall)
    (hdistinct : (calls.filterMap DecisionCall.proposes).Nodup) :
    CarriedOutOnce { quorumSize := quorumSize, maxHistory := maxHistory } calls ↔
      Along exec Orderly { quorumSize := quorumSize, maxHistory := maxHistory } calls :=
  ⟨CarriedOutOnce.orderly rfl,CarriedOutOnce.of_orderly rfl hdistinct⟩

end Once

/-- A proposal whose last vote comes when it is already being executed. -/
def lateVote : List DecisionCall :=
  [.propose 0 { proposalId := "scale-eu" },.vote 1 "scale-eu" true,.execute 2 "scale-eu",
   .vote 3 "scale-eu" true,.execute 4 "scale-eu"]

theorem carriedOutOnce_voted : CarriedOutOnce { quorumSize := 1 } (lateVote.take 3) :=
  (carriedOutOnce_iff 1 500 _ (by decide)).mpr (by decide +kernel)

theorem not_carriedOutOnce : ¬ ∀ (quorumSize maxHistory : ℤ) (calls : List DecisionCall),
    1 ≤ quorumSize → (calls.filterMap DecisionCall.proposes).Nodup →
    CarriedOutOnce { quorumSize := quorumSize, maxHistory := maxHistory } calls := by
  intro h
  have hstarts := (h 1 500 lateVote le_rfl (by decide)).starts "scale-eu"
  have htwo : occurrences exec (Starts "scale-eu") { quorumSize := 1 } lateVote = 2 := by
    decide +kernel
  have heq : ({ quorumSize := 1, maxHistory := 500 } : DistributedDecisionEngine) =
      { quorumSize := 1 } := rfl
  rw [heq, htwo] at hstarts
  omega

end DistributedDecisionEngine
end Arsonist.Coordination
