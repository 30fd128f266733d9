import Arsonist.Coordination.ConsensusMesh

/-! Rounds of votes. The mesh counts the votes for and against a round from the numbers that the
round is proposed with; it does not count the nodes that cast them. -/
namespace Arsonist.Coordination
open Arsonist.Library

/-- A call, and the node that makes it. -/
abbrev NodeCall := String × MeshCall

namespace ConsensusMesh

/-- The mesh does not see which node makes the call. -/
def execBy (m : ConsensusMesh) (c : NodeCall) : ConsensusMesh := m.exec c.2

/-- A call about a round changes what is known of it: `proposed` a proposal, `voted` a vote. -/
def track {α : Type*} (roundId : String) (proposed : ConsensusRound → α)
    (voted : String → Bool → α → α) (a : α) (c : NodeCall) : α :=
  match c.2 with
  | .proposeRound _ r => if r.roundId = roundId then proposed r else a
  | .voteRound _ id approve => if id = roundId then voted c.1 approve a else a
  | _ => a

/-- The round as it was proposed last. -/
def lastProposal (roundId : String) (calls : List NodeCall) : Option ConsensusRound :=
  calls.foldl (track roundId some fun _ _ r => r) none

/-- The callers of the votes of one kind since the round was proposed. -/
def votersSince (roundId : String) (approve : Bool) (calls : List NodeCall) : List String :=
  calls.foldl (track roundId (fun _ => []) fun node a nodes =>
    if a = approve then nodes ++ [node] else nodes) []

theorem lastProposal_concat (roundId : String) (calls : List NodeCall) (c : NodeCall) :
    lastProposal roundId (calls ++ [c]) =
      track roundId some (fun _ _ r => r) (lastProposal roundId calls) c := by
  rw [lastProposal, List.foldl_append]
  rfl

theorem votersSince_concat (roundId : String) (approve : Bool) (calls : List NodeCall)
    (c : NodeCall) : votersSince roundId approve (calls ++ [c]) =
      track roundId (fun _ => []) (fun node a nodes => if a = approve then nodes ++ [node] else nodes)
        (votersSince roundId approve calls) c := by
  rw [votersSince, List.foldl_append]
  rfl

@[simp] theorem track_voteRound {α : Type*} (roundId : String) (proposed : ConsensusRound → α)
    (voted : String → Bool → α → α) (a : α) (node : String) (now : ℚ) (approve : Bool) :
    track roundId proposed voted a (node,.voteRound now roundId approve) = voted node approve a :=
  if_pos rfl

@[simp] theorem track_proposeRound {α : Type*} (proposed : ConsensusRound → α)
    (voted : String → Bool → α → α) (a : α) (node : String) (now : ℚ) (r : ConsensusRound) :
    track r.roundId proposed voted a (node,.proposeRound now r) = proposed r := if_pos rfl

/-- The round that a call is about. -/
def roundOf : MeshCall → Option String
  | .proposeRound _ r => some r.roundId
  | .voteRound _ id _ => some id
  | .autoApproveRound _ id => some id
  | _ => none

theorem track_of_ne {α : Type*} {roundId : String} {c : NodeCall} (h : roundOf c.2 ≠ some roundId)
    (proposed : ConsensusRound → α) (voted : String → Bool → α → α) (a : α) :
    track roundId proposed voted a c = a := by
  obtain ⟨node,c⟩ := c
  cases c with
  | proposeRound now r => exact if_neg fun heq => h (congrArg some heq)
  | voteRound now id approve => exact if_neg fun heq => h (congrArg some heq)
  | registerNode now n => rfl
  | removeNode id => rfl
  | heartbeat now id => rfl
  | checkHealth now timeout => rfl
  | electLeader now => rfl
  | autoApproveRound now id => rfl

/-- The votes of a round are those that it was proposed with and those that were cast since. -/
def Counted (roundId : String) (calls : List NodeCall) (r : ConsensusRound) : Prop :=
  ∃ r₀, lastProposal roundId calls = some r₀ ∧
    r.votesFor = r₀.votesFor+(votersSince roundId true calls).length ∧
    r.votesAgainst = r₀.votesAgainst+(votersSince roundId false calls).length

/-- A vote that was counted as in `d` completes the round as `r`. -/
structure Decides (d r : ConsensusRound) : Prop where
  votesFor : r.votesFor = d.votesFor
  votesAgainst : r.votesAgainst = d.votesAgainst
  quorum : r.result = .accepted ∧ r.quorum ≤ r.votesFor ∨
    r.result = .rejected ∧ r.quorum ≤ r.votesAgainst

section Votes
variable {m : ConsensusMesh} {roundId : String} {calls : List NodeCall} {r : ConsensusRound}

theorem Counted.voted (h : Counted roundId calls r) (node : String) (now : ℚ) (approve : Bool) :
    Counted roundId (calls ++ [(node,.voteRound now roundId approve)]) (r.voted approve) := by
  obtain ⟨r₀,hlast,hfor,hagainst⟩ := h
  refine ⟨r₀,?_,?_,?_⟩
  · rw [lastProposal_concat, track_voteRound, hlast]
  · rw [votersSince_concat, track_voteRound]
    cases approve
    · exact hfor
    · change r.votesFor+1 = _
      rw [hfor, if_pos rfl, List.length_append, List.length_singleton]
      push_cast
      ring
  · rw [votersSince_concat, track_voteRound]
    cases approve
    · change r.votesAgainst+1 = _
      rw [hagainst, if_pos rfl, List.length_append, List.length_singleton]
      push_cast
      ring
    · exact hagainst

theorem Counted.of_ne {c : NodeCall} (h : Counted roundId calls r)
    (hc : roundOf c.2 ≠ some roundId) : Counted roundId (calls ++ [c]) r := by
  rw [Counted, lastProposal_concat, votersSince_concat, votersSince_concat, track_of_ne hc,
    track_of_ne hc, track_of_ne hc]
  exact h

theorem key_round (r : ConsensusRound) : Keyed.key r = r.roundId := rfl

theorem voted_roundId (r : ConsensusRound) (approve : Bool) :
    (r.voted approve).roundId = r.roundId := by
  cases approve <;> rfl

/-- A call leaves the rounds alone that it is not about. -/
theorem get?_execBy_of_ne {c : NodeCall} (hc : roundOf c.2 ≠ some roundId) :
    (m.execBy c).rounds.get? roundId = m.rounds.get? roundId := by
  obtain ⟨node,c⟩ := c
  have hne : ∀ {id}, roundOf c = some id → roundId ≠ id := fun h heq => hc (heq ▸ h)
  rw [execBy, exec.eq_def]
  cases c with
  | registerNode now n => rfl
  | removeNode id =>
    dsimp only
    rw [removeNode]
    split <;> rfl
  | heartbeat now id =>
    dsimp only
    rw [heartbeat]
    split <;> rfl
  | checkHealth now timeout => rfl
  | electLeader now =>
    dsimp only
    rw [electLeader]
    split <;> rfl
  | proposeRound now r => exact (Table.get?_put _ _ _).trans (if_neg (hne rfl))
  | voteRound now id approve =>
    dsimp only
    rw [voteRound]
    cases hget : m.rounds.get? id with
    | none => rfl
    | some r =>
      have hkey : r.roundId = id := Table.key_of_get? hget
      dsimp only
      split_ifs <;> simp [finalizeRound, Table.get?_put, Table.get?_erase, key_round,
        voted_roundId, hkey, hne rfl]
  | autoApproveRound now id =>
    dsimp only
    rw [autoApproveRound]
    cases hget : m.rounds.get? id with
    | none => rfl
    | some r =>
      have hkey : r.roundId = id := Table.key_of_get? hget
      simp [finalizeRound, Table.get?_erase, hkey, hne rfl]

/-- A round that is still there after a vote was pending, and has the vote counted. -/
theorem get?_voteRound {now : ℚ} {approve : Bool}
    (h : (m.voteRound now roundId approve).1.rounds.get? roundId = some r)
    (hpending : r.result = .pending) :
    ∃ d, m.rounds.get? roundId = some d ∧ d.result = .pending ∧ r = d.voted approve := by
  rw [voteRound] at h
  cases hget : m.rounds.get? roundId with
  | none => simp [hget] at h
  | some d =>
    have hkey : d.roundId = roundId := Table.key_of_get? hget
    rw [hget] at h
    dsimp only at h
    split_ifs at h with hd hfor hagainst
    · rw [hget] at h
      obtain rfl := Option.some.inj h
      exact absurd hpending hd
    · simp [finalizeRound, Table.get?_erase, voted_roundId, hkey] at h
    · simp [finalizeRound, Table.get?_erase, voted_roundId, hkey] at h
    · rw [Table.get?_put, key_round, voted_roundId, hkey, if_pos rfl] at h
      exact ⟨d,rfl,not_not.mp hd,(Option.some.inj h).symm⟩

theorem get?_autoApproveRound (now : ℚ) :
    (m.autoApproveRound now roundId).1.rounds.get? roundId = none := by
  rw [autoApproveRound]
  cases hget : m.rounds.get? roundId with
  | none => exact hget
  | some d =>
    have hkey : d.roundId = roundId := Table.key_of_get? hget
    simp [finalizeRound, Table.get?_erase, hkey]

/-- In every run, the votes of a pending round are counted. -/
theorem counted_run (hempty : m.rounds = Table.empty)
    (h : (run execBy m calls).rounds.get? roundId = some r) (hpending : r.result = .pending) :
    Counted roundId calls r := by
  induction calls using List.reverseRecOn generalizing r with
  | nil =>
    rw [run_nil, hempty] at h
    cases h
  | append_singleton calls c ih =>
    rw [run_concat] at h
    by_cases hc : roundOf c.2 = some roundId
    · obtain ⟨node,c⟩ := c
      cases c with
      | proposeRound now d =>
        obtain rfl : d.roundId = roundId := Option.some.inj hc
        have hput := (if_pos rfl).symm.trans ((Table.get?_put _ _ _).symm.trans h)
        obtain rfl := Option.some.inj hput
        refine ⟨d,?_,?_,?_⟩
        · rw [lastProposal_concat, track_proposeRound]
        · rw [votersSince_concat, track_proposeRound]
          exact (add_zero _).symm
        · rw [votersSince_concat, track_proposeRound]
          exact (add_zero _).symm
      | voteRound now id approve =>
        obtain rfl : id = roundId := Option.some.inj hc
        obtain ⟨d,hget,hd,rfl⟩ := get?_voteRound h hpending
        exact (ih hget hd).voted node now approve
      | autoApproveRound now id =>
        obtain rfl : id = roundId := Option.some.inj hc
        cases h.symm.trans (get?_autoApproveRound now)
      | registerNode now n => cases hc
      | removeNode id => cases hc
      | heartbeat now id => cases hc
      | checkHealth now timeout => cases hc
      | electLeader now => cases hc
    · rw [get?_execBy_of_ne hc] at h
      exact (ih h hpending).of_ne hc

/-- A round that is completed by a call was completed by a vote, or approved without one. -/
theorem mem_completedRounds_execBy {c : NodeCall} (h : r ∈ (m.execBy c).completedRounds) :
    r ∈ m.completedRounds ∨ (∃ now, c.2 = .autoApproveRound now r.roundId) ∨
      ∃ now approve d, c.2 = .voteRound now r.roundId approve ∧
        m.rounds.get? r.roundId = some d ∧ d.result = .pending ∧ Decides (d.voted approve) r := by
  obtain ⟨node,c⟩ := c
  have hold : ∀ {d : ConsensusRound}, r ∈ (m.finalizeRound d).completedRounds →
      r ∈ m.completedRounds ∨ r = d := fun hr =>
    (List.mem_append.mp (mem_of_mem_truncated hr)).imp_right List.mem_singleton.mp
  cases c with
  | registerNode now n => exact Or.inl h
  | removeNode id =>
    rw [execBy, exec, removeNode] at h
    split at h <;> exact Or.inl h
  | heartbeat now id =>
    rw [execBy, exec, heartbeat] at h
    split at h <;> exact Or.inl h
  | checkHealth now timeout => exact Or.inl h
  | electLeader now =>
    rw [execBy, exec, electLeader] at h
    dsimp only at h
    split at h <;> exact Or.inl h
  | proposeRound now d => exact Or.inl h
  | voteRound now id approve =>
    rw [execBy, exec, voteRound] at h
    cases hget : m.rounds.get? id with
    | none => exact Or.inl (by simpa [hget] using h)
    | some d =>
      have hkey : (d.voted approve).roundId = id :=
        (voted_roundId d approve).trans (Table.key_of_get? hget)
      rw [hget] at h
      dsimp only at h
      split_ifs at h with hd hfor hagainst
      · exact Or.inl h
      · refine (hold h).imp_right fun hr => Or.inr ?_
        subst hr
        exact ⟨now,approve,d,congrArg (MeshCall.voteRound now · approve) hkey.symm,
          hkey ▸ hget,not_not.mp hd,rfl,rfl,Or.inl ⟨rfl,hfor⟩⟩
      · refine (hold h).imp_right fun hr => Or.inr ?_
        subst hr
        exact ⟨now,approve,d,congrArg (MeshCall.voteRound now · approve) hkey.symm,
          hkey ▸ hget,not_not.mp hd,rfl,rfl,Or.inr ⟨rfl,hagainst⟩⟩
      · exact Or.inl h
  | autoApproveRound now id =>
    rw [execBy, exec, autoApproveRound] at h
    cases hget : m.rounds.get? id with
    | none => exact Or.inl (by simpa [hget] using h)
    | some d =>
      have hkey : d.roundId = id := Table.key_of_get? hget
      rw [hget] at h
      refine (hold h).imp_right fun hr => Or.inl ⟨now,?_⟩
      subst hr
      exact congrArg (MeshCall.autoApproveRound now) hkey.symm

/-- A round is completed by a vote when the votes since its proposal, with those that it was
proposed with, reach its quorum. -/
theorem completed_by_votes (hempty : m.rounds = Table.empty) {calls : List NodeCall}
    (h : r ∈ (run execBy m calls).completedRounds) (hnew : r ∉ m.completedRounds) :
    ∃ p c q, calls = p ++ c :: q ∧ ((∃ now, c.2 = .autoApproveRound now r.roundId) ∨
      (∃ now approve, c.2 = .voteRound now r.roundId approve) ∧
      ∃ r₀, lastProposal r.roundId (p ++ [c]) = some r₀ ∧
        (r.result = .accepted ∧
            r.quorum ≤ r₀.votesFor+(votersSince r.roundId true (p ++ [c])).length ∨
          r.result = .rejected ∧
            r.quorum ≤ r₀.votesAgainst+(votersSince r.roundId false (p ++ [c])).length)) := by
  induction calls using List.reverseRecOn with
  | nil => exact absurd h hnew
  | append_singleton calls c ih =>
    rw [run_concat] at h
    obtain hold | hauto | ⟨now,approve,d,hc,hget,hd,hdec⟩ := mem_completedRounds_execBy h
    · obtain ⟨p,c',q,rfl,hby⟩ := ih hold
      exact ⟨p,c',q ++ [c],by simp,hby⟩
    · exact ⟨calls,c,[],rfl,Or.inl hauto⟩
    · obtain ⟨node,c⟩ := c
      obtain rfl : c = .voteRound now r.roundId approve := hc
      obtain ⟨r₀,hlast,hfor,hagainst⟩ := (counted_run hempty hget hd).voted node now approve
      refine ⟨calls,_,[],rfl,Or.inr ⟨⟨now,approve,rfl⟩,r₀,hlast,?_⟩⟩
      rw [← hfor, ← hagainst, ← hdec.votesFor, ← hdec.votesAgainst]
      exact hdec.quorum

end Votes

/-- Each call is made by a node that is registered. -/
def ByNodes (m : ConsensusMesh) (calls : List NodeCall) : Prop :=
  Along execBy (fun m c => (m.nodes.get? c.1).isSome) m calls

instance (m : ConsensusMesh) (calls : List NodeCall) : Decidable (ByNodes m calls) :=
  inferInstanceAs (Decidable (Along _ _ _ _))

/-- Three nodes, of which two are a quorum. -/
def threeNodes : ConsensusMesh :=
  run exec {} [.registerNode 0 { nodeId := "a" },.registerNode 0 { nodeId := "b" },
    .registerNode 0 { nodeId := "c" }]

/-- One node votes twice. -/
def voteTwice : List NodeCall :=
  [("a",.proposeRound 1 { roundId := "scale" }),("b",.voteRound 2 "scale" true),
   ("b",.voteRound 3 "scale" true)]

/-- The round that the two votes accept. -/
def scaleRound : ConsensusRound :=
  { roundId := "scale", votesFor := 2, quorum := 2, result := .accepted, proposedAt := 1,
    decidedAt := 3 }

theorem completed_by_votes_scale :
    ∃ p c q, voteTwice = p ++ c :: q ∧ ((∃ now, c.2 = .autoApproveRound now "scale") ∨
      (∃ now approve, c.2 = .voteRound now "scale" approve) ∧
      ∃ r₀, lastProposal "scale" (p ++ [c]) = some r₀ ∧
        (scaleRound.result = .accepted ∧
            scaleRound.quorum ≤ r₀.votesFor+(votersSince "scale" true (p ++ [c])).length ∨
          scaleRound.result = .rejected ∧
            scaleRound.quorum ≤
              r₀.votesAgainst+(votersSince "scale" false (p ++ [c])).length)) :=
  completed_by_votes (m := threeNodes) (r := scaleRound) rfl (by decide +kernel)
    (by decide +kernel)

theorem quorum_of_one_voter : ¬ ∀ (m : ConsensusMesh) (calls : List NodeCall),
    m.rounds = Table.empty → ByNodes m calls →
    ∀ r ∈ (run execBy m calls).completedRounds, r ∉ m.completedRounds → r.result = .accepted →
      r.quorum ≤ (votersSince r.roundId true calls).toFinset.card := by
  intro h
  have hcard := h threeNodes voteTwice rfl (by decide +kernel) scaleRound (by decide +kernel)
    (by decide +kernel) rfl
  have hone : (votersSince "scale" true voteTwice).toFinset.card = 1 := by decide +kernel
  rw [show scaleRound.roundId = "scale" from rfl, hone] at hcard
  exact absurd hcard (by decide)

end ConsensusMesh
end Arsonist.Coordination
