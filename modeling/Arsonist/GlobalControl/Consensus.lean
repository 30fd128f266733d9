import Arsonist.Library.Runs

/-! The leader of the global control plane. Every node decides on its own, from what it has last
heard, whether it leads; leaders tell the others about their lease in heartbeats. -/
namespace Arsonist.GlobalControl
open Arsonist.Library

inductive LeaderState
  | leader
  | follower
  | candidate
  deriving DecidableEq

/-- What a node believes about the leader. -/
structure GlobalConsensus where
  state : LeaderState := .follower
  leaderId : Option String := none
  leaseExpiry : ℚ := 0
  deriving DecidableEq

namespace GlobalConsensus
variable (nodeId : String) (leaseTtl : ℚ) (c : GlobalConsensus)

def tryPromote (ts : ℚ) : GlobalConsensus :=
  { state := .leader, leaderId := some nodeId, leaseExpiry := ts+leaseTtl }

/-- The locked part of `_tick`, at the time that was read before. -/
def tick (ts : ℚ) : GlobalConsensus :=
  if c.state = .leader then { c with leaseExpiry := ts+leaseTtl }
  else if 0 < c.leaseExpiry ∧ c.leaseExpiry < ts then tryPromote nodeId leaseTtl ts
  else if c.leaderId = none then tryPromote nodeId leaseTtl ts
  else c

def receiveHeartbeat (leaderId : String) (leaseExpiry : ℚ) : GlobalConsensus :=
  if leaderId ≠ nodeId then
    { state := if c.state = .leader then .follower else c.state, leaderId := some leaderId,
      leaseExpiry := leaseExpiry }
  else c

/-- A tick at `ts` takes or renews the lease. -/
def Leads (ts : ℚ) : Prop :=
  c.state = .leader ∨ 0 < c.leaseExpiry ∧ c.leaseExpiry < ts ∨ c.leaderId = none

instance (ts : ℚ) : Decidable (c.Leads ts) :=
  inferInstanceAs (Decidable (_ ∨ _ ∧ _ ∨ _))

/-- A leader whose lease is not over at `now`. -/
def LeaderAt (now : ℚ) : Prop := c.state = .leader ∧ now < c.leaseExpiry

instance (now : ℚ) : Decidable (c.LeaderAt now) := inferInstanceAs (Decidable (_ ∧ _))

variable {nodeId leaseTtl c}

/-- After a tick a node leads as of the tick's time, or it is a follower as before. -/
theorem leaderAt_tick (ts now : ℚ) :
    (c.tick nodeId leaseTtl ts).LeaderAt now ↔ c.Leads ts ∧ now < ts+leaseTtl := by
  rw [tick, Leads]
  by_cases hleader : c.state = .leader
  · rw [if_pos hleader]
    simp [LeaderAt, hleader]
  · rw [if_neg hleader]
    by_cases hexpired : 0 < c.leaseExpiry ∧ c.leaseExpiry < ts
    · rw [if_pos hexpired]
      simp [LeaderAt, tryPromote, hexpired]
    · rw [if_neg hexpired]
      by_cases hunknown : c.leaderId = none
      · rw [if_pos hunknown]
        simp [LeaderAt, tryPromote, hunknown]
      · rw [if_neg hunknown]
        refine iff_of_false (fun h => hleader h.1) ?_
        rintro ⟨hleads | hleads | hleads,-⟩
        · exact hleader hleads
        · exact hexpired hleads
        · exact hunknown hleads

/-- A heartbeat makes no leader. -/
theorem leaderAt_receiveHeartbeat {leaderId : String} {leaseExpiry now : ℚ}
    (h : (c.receiveHeartbeat nodeId leaderId leaseExpiry).LeaderAt now) : c.LeaderAt now := by
  rw [receiveHeartbeat] at h
  by_cases hother : leaderId ≠ nodeId
  · rw [if_pos hother] at h
    by_cases hstate : c.state = .leader
    · simp [LeaderAt, hstate] at h
    · exact absurd h.1 (by simp [hstate])
  · rwa [if_neg hother] at h

end GlobalConsensus

/-- A leader's heartbeat, as `status` shows it. -/
structure LeaderHeartbeat where
  nodeId : String
  leaseExpiry : ℚ
  deriving DecidableEq

/-- The nodes under their ids, the clock that they share, the heartbeats that were sent, and the
ticks that have read the clock and wait for the lock. -/
structure Plane where
  nodes : String → GlobalConsensus := fun _ => {}
  now : ℚ
  sent : List LeaderHeartbeat := []
  ticking : String → Option ℚ := fun _ => none

inductive PlaneEvent
  | clock (now : ℚ)
  | beginTick (nodeId : String)
  | tick (nodeId : String)
  | send (nodeId : String)
  | deliver (nodeId : String) (heartbeat : LeaderHeartbeat)

namespace Plane
variable (leaseTtl : String → ℚ) (s : Plane)

def setNode (i : String) (c : GlobalConsensus) : Plane :=
  { s with nodes := Function.update s.nodes i c }

/-- Heartbeats are delivered in any order, late, more than once or never. -/
def exec : PlaneEvent → Plane
  | .clock now => { s with now := max s.now now }
  | .beginTick i => { s with ticking := Function.update s.ticking i (some s.now) }
  | .tick i =>
    match s.ticking i with
    | none => s
    | some ts =>
      { s.setNode i ((s.nodes i).tick i (leaseTtl i) ts) with
        ticking := Function.update s.ticking i none }
  | .send i =>
    if (s.nodes i).state = .leader then { s with sent := ⟨i,(s.nodes i).leaseExpiry⟩ :: s.sent }
    else s
  | .deliver i heartbeat =>
    if heartbeat ∈ s.sent then
      s.setNode i ((s.nodes i).receiveHeartbeat i heartbeat.nodeId heartbeat.leaseExpiry)
    else s

/-- No two nodes lead with leases that are not over. -/
def SingleLeader : Prop :=
  ∀ i j, (s.nodes i).LeaderAt s.now → (s.nodes j).LeaderAt s.now → i = j

/-- A tick that would leave its node with a lease finds no other leader with one. -/
def Uncontested : PlaneEvent → Prop
  | .tick i => ∀ ts ∈ s.ticking i, (s.nodes i).Leads ts → s.now < ts+leaseTtl i →
      ∀ j, (s.nodes j).LeaderAt s.now → j = i
  | _ => True

variable {leaseTtl s}

/-- No two lead after a change that makes no node a leader. -/
theorem SingleLeader.mono {s' : Plane} (h : s.SingleLeader)
    (hfew : ∀ i, (s'.nodes i).LeaderAt s'.now → (s.nodes i).LeaderAt s.now) : s'.SingleLeader :=
  fun i j hi hj => h i j (hfew i hi) (hfew j hj)

@[simp] theorem nodes_setNode_self (i : String) (c : GlobalConsensus) :
    (s.setNode i c).nodes i = c := Function.update_self _ _ _

theorem nodes_setNode_of_ne {i j : String} (hji : j ≠ i) (c : GlobalConsensus) :
    (s.setNode i c).nodes j = s.nodes j := Function.update_of_ne hji _ _

@[simp] theorem now_setNode (i : String) (c : GlobalConsensus) : (s.setNode i c).now = s.now := rfl

/-- No two lead after a change of one node. -/
theorem singleLeader_setNode (h : s.SingleLeader) (i : String) (c : GlobalConsensus) :
    (s.setNode i c).SingleLeader ↔
      (c.LeaderAt s.now → ∀ j, (s.nodes j).LeaderAt s.now → j = i) := by
  have hself : (s.setNode i c).nodes i = c := nodes_setNode_self i c
  have hrest : ∀ j, j ≠ i → (s.setNode i c).nodes j = s.nodes j :=
    fun j hji => nodes_setNode_of_ne hji c
  rw [SingleLeader, now_setNode]
  constructor
  · intro hsingle hc j hj
    by_contra hji
    exact hji (hsingle j i ((hrest j hji).symm ▸ hj) (hself.symm ▸ hc))
  · intro hothers j k hj hk
    by_cases hji : j = i <;> by_cases hki : k = i
    · rw [hji, hki]
    · rw [hji, hself] at hj
      rw [hrest k hki] at hk
      exact hji.trans (hothers hj k hk).symm
    · rw [hki, hself] at hk
      rw [hrest j hji] at hj
      exact (hothers hk j hj).trans hki.symm
    · rw [hrest j hji] at hj
      rw [hrest k hki] at hk
      exact h j k hj hk

/-- One step leaves a single leader exactly when it is not a contested tick. -/
theorem singleLeader_exec_iff (h : s.SingleLeader) (e : PlaneEvent) :
    (s.exec leaseTtl e).SingleLeader ↔ s.Uncontested leaseTtl e := by
  cases e with
  | clock now =>
    refine iff_of_true (h.mono fun i hi => ?_) trivial
    exact ⟨hi.1,lt_of_le_of_lt (le_max_left _ _) hi.2⟩
  | beginTick i => exact iff_of_true (h.mono fun _ hi => hi) trivial
  | tick i =>
    rw [exec, Uncontested]
    cases hts : s.ticking i with
    | none => exact iff_of_true h (by simp)
    | some ts =>
      simp only [Option.mem_some_iff, forall_eq']
      change (s.setNode i ((s.nodes i).tick i (leaseTtl i) ts)).SingleLeader ↔ _
      rw [singleLeader_setNode h, GlobalConsensus.leaderAt_tick, and_imp]
  | send i =>
    rw [exec]
    split_ifs
    · exact iff_of_true (h.mono fun _ hi => hi) trivial
    · exact iff_of_true h trivial
  | deliver i heartbeat =>
    rw [exec]
    split_ifs
    · refine iff_of_true (h.mono fun j hj => ?_) trivial
      by_cases hji : j = i
      · subst hji
        rw [nodes_setNode_self] at hj
        exact GlobalConsensus.leaderAt_receiveHeartbeat hj
      · rwa [nodes_setNode_of_ne hji] at hj
    · exact iff_of_true h trivial

/-- From nodes that have just started, no two lead in any state of a run exactly when every tick
of the run is uncontested. -/
theorem singleLeader_iff (leaseTtl : String → ℚ) (now : ℚ) (events : List PlaneEvent) :
    (∀ p q, events = p ++ q → (run (exec leaseTtl) { now := now } p).SingleLeader) ↔
      Along (exec leaseTtl) (Uncontested leaseTtl) { now := now } events := by
  have hinit : ({ now := now } : Plane).SingleLeader := fun i j hi => by cases hi.1
  rw [always_iff hinit]
  exact along_congr (I := SingleLeader) (fun s e hC _ => hC)
    (fun s e hs => singleLeader_exec_iff hs e) hinit

/-- Two nodes that have just started tick, and both promote themselves. -/
def bothPromoted : List PlaneEvent := [.beginTick "a",.tick "a",.beginTick "b",.tick "b"]

theorem not_singleLeader : ¬ ∀ leaseTtl now events,
    (run (exec leaseTtl) { now := now } events).SingleLeader := by
  intro h
  have hboth := h (fun _ => 30) 0 bothPromoted "a" "b" (by decide +kernel) (by decide +kernel)
  revert hboth
  decide

end Plane
end Arsonist.GlobalControl
