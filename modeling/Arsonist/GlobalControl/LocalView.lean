import Arsonist.GlobalControl.Consensus
import Arsonist.Library.Floats
import Mathlib.Data.List.Chain

/-! What one node of the global control plane tells its own services about the leadership: the
callbacks that it calls when it takes and when it loses the lead. -/
namespace Arsonist.GlobalControl
open Arsonist.Library

inductive Callback
  | onPromote
  | onDemote
  deriving DecidableEq

/-- A node with the callbacks that it has called so far, and the exceptions that it has logged. A
lease may end at any float. -/
structure LocalNode where
  state : LeaderState := .follower
  leaderId : Option String := none
  leaseExpiry : PyFloat := .number 0
  called : List Callback := []
  logged : List String := []

/-- A node's settings: the callbacks may be missing. -/
structure LocalSettings where
  nodeId : String
  leaseTtl : PyFloat := .number 30
  given : Callback → Bool := fun _ => true

/-- How a callback ends: an exception has a text. -/
abbrev Outcome := Except String Unit

namespace LocalNode
variable (settings : LocalSettings) (n : LocalNode)

/-- `try: callback()`, with the exception logged. -/
def invoke (callback : Callback) (outcome : Outcome) : LocalNode :=
  if settings.given callback then
    match outcome with
    | .ok () => { n with called := n.called ++ [callback] }
    | .error text => { n with called := n.called ++ [callback], logged := n.logged ++ [text] }
  else n

/-- `_try_promote`. -/
def tryPromote (ts : ℚ) (outcome : Outcome) : LocalNode :=
  let promoted := { n with state := .leader, leaderId := some settings.nodeId
                           leaseExpiry := settings.leaseTtl.after ts }
  if n.state ≠ .leader then promoted.invoke settings .onPromote outcome else promoted

/-- `_tick`. -/
def tick (ts : ℚ) (outcome : Outcome) : LocalNode :=
  if n.state = .leader then { n with leaseExpiry := settings.leaseTtl.after ts }
  else if n.leaseExpiry.exceeds 0 ∧ n.leaseExpiry.lt (.number ts) then
    n.tryPromote settings ts outcome
  else if n.leaderId = none then n.tryPromote settings ts outcome
  else n

/-- `receive_heartbeat`. -/
def receiveHeartbeat (leaderId : String) (leaseExpiry : PyFloat) (outcome : Outcome) : LocalNode :=
  if leaderId ≠ settings.nodeId then
    let n := if n.state = .leader then
      ({ n with state := .follower } : LocalNode).invoke settings .onDemote outcome else n
    { n with leaderId := some leaderId, leaseExpiry := leaseExpiry }
  else n

end LocalNode

inductive NodeCall
  | tick (ts : ℚ) (outcome : Outcome)
  | receiveHeartbeat (leaderId : String) (leaseExpiry : PyFloat) (outcome : Outcome)

def LocalNode.step (settings : LocalSettings) (n : LocalNode) : NodeCall → LocalNode
  | .tick ts outcome => n.tick settings ts outcome
  | .receiveHeartbeat leaderId leaseExpiry outcome =>
    n.receiveHeartbeat settings leaderId leaseExpiry outcome

/-! ### The state and the leader -/

section Leads
variable {settings : LocalSettings} {n : LocalNode}

/-- What a call can do: nothing but to the lease or the known leader, or a promotion, or a
demotion. -/
inductive ViewChange (settings : LocalSettings) (n : LocalNode) : LocalNode → Prop
  | renewed (leaseExpiry : PyFloat) : ViewChange settings n { n with leaseExpiry := leaseExpiry }
  | heard {leaderId : String} (hother : leaderId ≠ settings.nodeId) (hstate : n.state ≠ .leader)
      (leaseExpiry : PyFloat) :
      ViewChange settings n { n with leaderId := some leaderId, leaseExpiry := leaseExpiry }
  | promoted (hstate : n.state ≠ .leader) (leaseExpiry : PyFloat) (outcome : Outcome) :
      ViewChange settings n
        (({ n with state := .leader, leaderId := some settings.nodeId,
                   leaseExpiry := leaseExpiry } : LocalNode).invoke settings .onPromote outcome)
  | demoted {leaderId : String} (hother : leaderId ≠ settings.nodeId) (hstate : n.state = .leader)
      (leaseExpiry : PyFloat) (outcome : Outcome) :
      ViewChange settings n
        { ({ n with state := .follower } : LocalNode).invoke settings .onDemote outcome with
          leaderId := some leaderId, leaseExpiry := leaseExpiry }

theorem change_step (settings : LocalSettings) (n : LocalNode) (call : NodeCall) :
    ViewChange settings n (n.step settings call) := by
  cases call with
  | tick ts outcome =>
    rw [LocalNode.step, LocalNode.tick]
    by_cases hleader : n.state = .leader
    · rw [if_pos hleader]
      exact ViewChange.renewed _
    · have hpromote : ViewChange settings n (n.tryPromote settings ts outcome) := by
        rw [LocalNode.tryPromote, if_pos hleader]
        exact ViewChange.promoted hleader _ outcome
      rw [if_neg hleader]
      split
      · exact hpromote
      split
      · exact hpromote
      · exact ViewChange.renewed n.leaseExpiry
  | receiveHeartbeat leaderId leaseExpiry outcome =>
    rw [LocalNode.step, LocalNode.receiveHeartbeat]
    by_cases hother : leaderId ≠ settings.nodeId
    · rw [if_pos hother]
      by_cases hleader : n.state = .leader
      · rw [if_pos hleader]
        exact ViewChange.demoted hother hleader leaseExpiry outcome
      · rw [if_neg hleader]
        exact ViewChange.heard hother hleader leaseExpiry
    · rw [if_neg hother]
      exact ViewChange.renewed n.leaseExpiry

/-- The callbacks alternate, beginning with a promotion. -/
def Alternates (called : List Callback) : Prop :=
  called.IsChain (· ≠ ·) ∧ ∀ first ∈ called.head?, first = .onPromote

theorem Alternates.concat {called : List Callback} {callback : Callback} (h : Alternates called)
    (hlast : ∀ last ∈ called.getLast?, last ≠ callback)
    (hfirst : called = [] → callback = .onPromote) : Alternates (called ++ [callback]) := by
  refine ⟨List.isChain_append.mpr ⟨h.1,List.isChain_singleton _,?_⟩,?_⟩
  · intro last hmem next hnext
    obtain rfl : callback = next := Option.some.inj hnext
    exact hlast last hmem
  · cases called with
    | nil =>
      intro first hmem
      obtain rfl : callback = first := Option.some.inj hmem
      exact hfirst rfl
    | cons first called => exact h.2

/-- The node leads exactly when it takes itself for the leader, and if it has both callbacks, when
it was the promotion that it called last. -/
structure LocalNode.Coherent (settings : LocalSettings) (n : LocalNode) : Prop where
  leads : n.state = .leader ↔ n.leaderId = some settings.nodeId
  called : (∀ callback, settings.given callback = true) →
    Alternates n.called ∧ (n.state = .leader ↔ n.called.getLast? = some .onPromote)

theorem LocalNode.invoke_given (hgiven : ∀ callback, settings.given callback = true)
    (callback : Callback) (outcome : Outcome) :
    (n.invoke settings callback outcome).called = n.called ++ [callback] := by
  cases outcome with
  | ok u => exact congrArg called (if_pos (hgiven callback))
  | error text => exact congrArg called (if_pos (hgiven callback))

/-- A callback leaves everything but the records of the calls as it is. -/
theorem LocalNode.invoke_frame (n : LocalNode) (callback : Callback) (outcome : Outcome) :
    ∃ called logged,
      n.invoke settings callback outcome = { n with called := called, logged := logged } := by
  by_cases hgiven : settings.given callback = true
  · cases outcome with
    | ok u => exact ⟨_,_,if_pos hgiven⟩
    | error text => exact ⟨_,_,if_pos hgiven⟩
  · cases outcome with
    | ok u => exact ⟨n.called,n.logged,if_neg hgiven⟩
    | error text => exact ⟨n.called,n.logged,if_neg hgiven⟩

@[simp] theorem LocalNode.state_invoke (callback : Callback) (outcome : Outcome) :
    (n.invoke settings callback outcome).state = n.state := by
  obtain ⟨called,logged,h⟩ := n.invoke_frame callback outcome
  rw [h]

@[simp] theorem LocalNode.leaderId_invoke (callback : Callback) (outcome : Outcome) :
    (n.invoke settings callback outcome).leaderId = n.leaderId := by
  obtain ⟨called,logged,h⟩ := n.invoke_frame callback outcome
  rw [h]

@[simp] theorem LocalNode.leaseExpiry_invoke (callback : Callback) (outcome : Outcome) :
    (n.invoke settings callback outcome).leaseExpiry = n.leaseExpiry := by
  obtain ⟨called,logged,h⟩ := n.invoke_frame callback outcome
  rw [h]

theorem LocalNode.Coherent.change (h : n.Coherent settings) {n' : LocalNode}
    (hchange : ViewChange settings n n') : n'.Coherent settings := by
  cases hchange with
  | renewed leaseExpiry => exact ⟨h.leads,h.called⟩
  | heard hother hstate leaseExpiry =>
    refine ⟨iff_of_false hstate fun hself => ?_,h.called⟩
    exact hother (Option.some.inj hself)
  | promoted hstate leaseExpiry outcome =>
    refine ⟨?_,fun hgiven => ?_⟩
    · rw [LocalNode.state_invoke, LocalNode.leaderId_invoke]
      exact iff_of_true rfl rfl
    · obtain ⟨halternate,hlast⟩ := h.called hgiven
      rw [LocalNode.invoke_given hgiven, LocalNode.state_invoke]
      refine ⟨halternate.concat ?_ fun _ => rfl,iff_of_true rfl List.getLast?_concat⟩
      rintro last hmem rfl
      exact hstate (hlast.mpr hmem)
  | demoted hother hstate leaseExpiry outcome =>
    refine ⟨?_,fun hgiven => ?_⟩
    · change (LocalNode.invoke settings _ .onDemote outcome).state = .leader ↔ _
      rw [LocalNode.state_invoke]
      exact iff_of_false nofun fun hself => hother (Option.some.inj hself)
    · obtain ⟨halternate,hlast⟩ := h.called hgiven
      have hpromoted := hlast.mp hstate
      change Alternates (LocalNode.invoke settings _ .onDemote outcome).called ∧
        ((LocalNode.invoke settings _ .onDemote outcome).state = .leader ↔
          (LocalNode.invoke settings _ .onDemote outcome).called.getLast? = _)
      rw [LocalNode.invoke_given hgiven, LocalNode.state_invoke, List.getLast?_concat]
      refine ⟨halternate.concat ?_ fun hnil => ?_,iff_of_false nofun nofun⟩
      · rintro last hmem rfl
        cases Option.some.inj (hpromoted.symm.trans hmem)
      · change n.called = [] at hnil
        rw [hnil] at hpromoted
        cases hpromoted

end Leads

/-! ### Leases that end at a number -/

namespace LocalNode

/-- The node shows what the other one holds. -/
def Shows (n : LocalNode) (c : GlobalConsensus) : Prop :=
  n.state = c.state ∧ n.leaderId = c.leaderId ∧ n.leaseExpiry = .number c.leaseExpiry

variable {settings : LocalSettings} {n : LocalNode} {c : GlobalConsensus}

theorem Shows.tryPromote {leaseTtl : ℚ} (httl : settings.leaseTtl = .number leaseTtl) (ts : ℚ)
    (outcome : Outcome) :
    (n.tryPromote settings ts outcome).Shows
      (GlobalConsensus.tryPromote settings.nodeId leaseTtl ts) := by
  have hexpiry : settings.leaseTtl.after ts = .number (ts+leaseTtl) := by
    rw [httl]
    rfl
  rw [LocalNode.tryPromote, GlobalConsensus.tryPromote, hexpiry]
  split
  · exact ⟨state_invoke _ _,leaderId_invoke _ _,leaseExpiry_invoke _ _⟩
  · exact ⟨rfl,rfl,rfl⟩

/-- A tick does the same to both. -/
theorem Shows.tick (h : n.Shows c) {leaseTtl : ℚ} (httl : settings.leaseTtl = .number leaseTtl)
    (ts : ℚ) (outcome : Outcome) :
    (n.tick settings ts outcome).Shows (c.tick settings.nodeId leaseTtl ts) := by
  obtain ⟨hstate,hleader,hexpiry⟩ := h
  have hover : (n.leaseExpiry.exceeds 0 = true ∧ n.leaseExpiry.lt (.number ts) = true) ↔
      0 < c.leaseExpiry ∧ c.leaseExpiry < ts := by
    rw [hexpiry, PyFloat.exceeds, PyFloat.lt, PyFloat.lt, decide_eq_true_iff, decide_eq_true_iff]
  rw [LocalNode.tick, GlobalConsensus.tick]
  by_cases hlead : c.state = .leader
  · rw [if_pos (hstate.trans hlead), if_pos hlead]
    refine ⟨hstate,hleader,?_⟩
    rw [httl]
    rfl
  · rw [if_neg (hstate ▸ hlead), if_neg hlead]
    by_cases hexpired : 0 < c.leaseExpiry ∧ c.leaseExpiry < ts
    · rw [if_pos (hover.mpr hexpired), if_pos hexpired]
      exact Shows.tryPromote httl ts outcome
    · rw [if_neg (hover.not.mpr hexpired), if_neg hexpired]
      by_cases hunknown : c.leaderId = none
      · rw [if_pos (hleader.trans hunknown), if_pos hunknown]
        exact Shows.tryPromote httl ts outcome
      · rw [if_neg (hleader ▸ hunknown), if_neg hunknown]
        exact ⟨hstate,hleader,hexpiry⟩

/-- A heartbeat does the same to both. -/
theorem Shows.receiveHeartbeat (h : n.Shows c) (leaderId : String) (leaseExpiry : ℚ)
    (outcome : Outcome) :
    (n.receiveHeartbeat settings leaderId (.number leaseExpiry) outcome).Shows
      (c.receiveHeartbeat settings.nodeId leaderId leaseExpiry) := by
  obtain ⟨hstate,hleader,hexpiry⟩ := h
  rw [LocalNode.receiveHeartbeat, GlobalConsensus.receiveHeartbeat]
  by_cases hother : leaderId ≠ settings.nodeId
  · rw [if_pos hother, if_pos hother]
    by_cases hlead : c.state = .leader
    · rw [if_pos (hstate.trans hlead), if_pos hlead]
      exact ⟨state_invoke _ _,rfl,rfl⟩
    · rw [if_neg (hstate ▸ hlead), if_neg hlead]
      exact ⟨hstate,rfl,rfl⟩
  · rw [if_neg hother, if_neg hother]
    exact ⟨hstate,hleader,hexpiry⟩

end LocalNode
end Arsonist.GlobalControl
