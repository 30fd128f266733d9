import Arsonist.Library.Interleaving
import Arsonist.Mesh.PeerRegistry

/-! Latency hints while gossip is merged and stale peers expire. `update_latency_hint` reads the
record of a peer under the lock and writes it back under the lock later on; calls of `merge_state`
and of `expire_stale`, which hold the lock throughout, come in between. -/
namespace Arsonist.Mesh
open Arsonist.Library

/-- The registry, and the records that the merges have accepted so far. -/
structure GossipState where
  registry : PeerRegistry
  accepted : List PeerRecord := []

/-- A merge writes the record. -/
def PeerRegistry.Accepts (reg : PeerRegistry) (peer : PeerRecord) : Prop :=
  ∀ cur, reg.get? peer.clusterId = some cur → shouldReplace cur peer = true

theorem PeerRegistry.accepts_of_none {reg : PeerRegistry} {peer : PeerRecord}
    (h : reg.get? peer.clusterId = none) : reg.Accepts peer := by
  intro cur hcur
  rw [h] at hcur
  cases hcur

theorem PeerRegistry.accepts_iff {reg : PeerRegistry} {peer cur : PeerRecord}
    (h : reg.get? peer.clusterId = some cur) :
    reg.Accepts peer ↔ shouldReplace cur peer = true := by
  constructor
  · exact fun hall => hall cur h
  · intro hr cur' hcur'
    rw [h] at hcur'
    exact Option.some.inj hcur' ▸ hr

instance (reg : PeerRegistry) (peer : PeerRecord) : Decidable (reg.Accepts peer) :=
  match h : reg.get? peer.clusterId with
  | none => .isTrue (PeerRegistry.accepts_of_none h)
  | some _ => decidable_of_iff _ (PeerRegistry.accepts_iff h).symm

namespace GossipState
variable (s : GossipState)

/-- One turn of the loop in `merge_state`. -/
def mergeOne (now : ℚ) (s : GossipState) (state : PeerState) : GossipState :=
  let peer := PeerRegistry.toPeerRecord now state
  if s.registry.Accepts peer then ⟨s.registry.put peer,s.accepted ++ [peer]⟩ else s

/-- `merge_state`. -/
def mergeState (now : ℚ) (states : List PeerState) : GossipState := run (mergeOne now) s states

/-- What other calls do to the registry. -/
inductive Call
  | mergeState (now : ℚ) (states : List PeerState)
  | expireStale (ttlSec t : ℚ)

def call : Call → GossipState
  | .mergeState now states => s.mergeState now states
  | .expireStale ttlSec t => { s with registry := (s.registry.expireStale ttlSec t).1 }

end GossipState

/-- Where a call of `update_latency_hint` stands: the next thing it does, with the record that it
has read. -/
inductive LatencyHint
  | reading (id : ClusterId) (sampleMs : ℚ)
  | writing (peer : PeerRecord)
  | done
  deriving DecidableEq

namespace LatencyHint

/-- The moving average. -/
def smoothed (sampleMs : ℚ) (peer : PeerRecord) : PeerRecord :=
  { peer with latencyEstimateMs := 35/100*sampleMs+(1-35/100)*peer.latencyEstimateMs }

/-- The write is an `UPDATE`: without a row it does nothing. -/
def next (s : GossipState) : LatencyHint → ℚ → GossipState × LatencyHint
  | .reading id sampleMs, _ =>
    match s.registry.get? id with
    | none => (s,.done)
    | some peer => (s,.writing (smoothed sampleMs peer))
  | .writing peer, now =>
    if (s.registry.get? peer.clusterId).isSome then
      ({ s with registry := s.registry.put { peer with lastSeen := now } },.done)
    else (s,.done)
  | .done, _ => (s,.done)

def program : Program GossipState LatencyHint GossipState.Call (ClusterId × ℚ) ℚ where
  outside := GossipState.call
  enter r := .reading r.1 r.2
  next := next

end LatencyHint

abbrev GossipPool := Pool GossipState LatencyHint

abbrev GossipEvent := PoolEvent GossipState.Call (ClusterId × ℚ) ℚ

namespace GossipState

/-- What is stored for a cluster has no lower version than what was accepted for it. -/
def Fresh (s : GossipState) : Prop :=
  ∀ id peer, s.registry.get? id = some peer →
    ∀ old ∈ s.accepted, old.clusterId = id → old.version ≤ peer.version

/-- The record has no lower version than what was accepted for its cluster. -/
def Newest (s : GossipState) (peer : PeerRecord) : Prop :=
  ∀ old ∈ s.accepted, old.clusterId = peer.clusterId → old.version ≤ peer.version

instance (s : GossipState) (peer : PeerRecord) : Decidable (s.Newest peer) :=
  inferInstanceAs (Decidable (∀ old ∈ s.accepted, _ → _))

/-- The versions are fresh after each of the rows that a call writes. -/
def StaysFresh (s : GossipState) : Call → Prop
  | .mergeState now states =>
    Along (mergeOne now) (fun t state => (mergeOne now t state).Fresh) s states
  | .expireStale ttlSec t => (s.call (.expireStale ttlSec t)).Fresh

/-- No state is accepted with a lower version than one that was accepted before it. -/
def Rises (s : GossipState) : Call → Prop
  | .mergeState now states =>
    Along (mergeOne now) (fun t state =>
      t.registry.Accepts (PeerRegistry.toPeerRecord now state) →
        t.Newest (PeerRegistry.toPeerRecord now state)) s states
  | .expireStale _ _ => True

instance (s : GossipState) (c : Call) : Decidable (s.Rises c) :=
  match c with
  | .mergeState now states => inferInstanceAs (Decidable (Along (mergeOne now) _ s states))
  | .expireStale _ _ => .isTrue trivial

variable {s : GossipState}

/-- A call is a call of `merge_state` on the registry. -/
theorem registry_mergeState (now : ℚ) (states : List PeerState) (s : GossipState) :
    (s.mergeState now states).registry = (s.registry.mergeState now states).1 := by
  rw [PeerRegistry.mergeState_eq_foldl]
  induction states generalizing s with
  | nil => rfl
  | cons state states ih =>
    have hone : (mergeOne now s state).registry =
        Table.merge (fun cur nxt => PeerRegistry.shouldReplace cur nxt = true) s.registry
          (PeerRegistry.toPeerRecord now state) := by
      rw [mergeOne, Table.merge, PeerRecord.key_eq]
      cases hcur : s.registry.get? (PeerRegistry.toPeerRecord now state).clusterId with
      | none =>
        rw [if_pos (PeerRegistry.accepts_of_none hcur)]
      | some cur =>
        have hacc := PeerRegistry.accepts_iff hcur
        by_cases hr : PeerRegistry.shouldReplace cur (PeerRegistry.toPeerRecord now state) = true
        · rw [if_pos (hacc.mpr hr)]
          exact (if_pos hr).symm
        · rw [if_neg (hacc.not.mpr hr)]
          exact (if_neg hr).symm
    rw [mergeState, run_cons]
    refine (ih (mergeOne now s state)).trans ?_
    rw [List.map_cons, List.foldl_cons, hone]

/-- A write keeps the versions fresh exactly when what it writes is the newest. -/
theorem fresh_put_iff (h : s.Fresh) (peer : PeerRecord) {new : List PeerRecord}
    (hnew : ∀ x ∈ new, x = peer) :
    (⟨s.registry.put peer,s.accepted ++ new⟩ : GossipState).Fresh ↔ s.Newest peer := by
  constructor
  · intro hfresh old hold hid
    refine hfresh peer.clusterId peer ?_ old (List.mem_append_left new hold) hid
    change (s.registry.put peer).get? _ = _
    rw [Table.get?_put]
    exact if_pos rfl
  · intro hnewest id cur hcur old hold hid
    change (s.registry.put peer).get? id = some cur at hcur
    rw [Table.get?_put, PeerRecord.key_eq] at hcur
    by_cases hpeer : id = peer.clusterId
    · rw [if_pos hpeer] at hcur
      obtain rfl := Option.some.inj hcur
      obtain hold | hold := List.mem_append.mp hold
      · exact hnewest old hold (hid.trans hpeer)
      · rw [hnew old hold]
    · rw [if_neg hpeer] at hcur
      obtain hold | hold := List.mem_append.mp hold
      · exact h id cur hcur old hold hid
      · rw [hnew old hold] at hid
        exact absurd hid.symm hpeer

theorem fresh_mergeOne_iff (h : s.Fresh) (now : ℚ) (state : PeerState) :
    (mergeOne now s state).Fresh ↔
      (s.registry.Accepts (PeerRegistry.toPeerRecord now state) →
        s.Newest (PeerRegistry.toPeerRecord now state)) := by
  rw [mergeOne]
  by_cases hacc : s.registry.Accepts (PeerRegistry.toPeerRecord now state)
  · rw [if_pos hacc, fresh_put_iff h _ fun x => List.mem_singleton.mp]
    exact ⟨fun hnewest _ => hnewest,fun hnewest => hnewest hacc⟩
  · rw [if_neg hacc]
    exact iff_of_true h fun hacc' => absurd hacc' hacc

/-- What expires takes no accepted version back. -/
theorem fresh_expireStale (h : s.Fresh) (ttlSec t : ℚ) :
    (s.call (.expireStale ttlSec t)).Fresh :=
  fun id peer hpeer => h id peer (PeerRegistry.get?_expireStale hpeer)

theorem staysFresh_iff (h : s.Fresh) (c : Call) : s.StaysFresh c ↔ s.Rises c := by
  cases c with
  | mergeState now states =>
    have hturn : ∀ (t : GossipState) state, (mergeOne now t state).Fresh → t.Fresh →
        (mergeOne now t state).Fresh := fun _ _ hfresh _ => hfresh
    exact along_congr hturn (fun t state ht => fresh_mergeOne_iff ht now state) h
  | expireStale ttlSec t => exact iff_of_true (fresh_expireStale h ttlSec t) trivial

theorem StaysFresh.fresh {c : Call} (hc : s.StaysFresh c) (h : s.Fresh) : (s.call c).Fresh := by
  cases c with
  | mergeState now states =>
    have hturn : ∀ (t : GossipState) state, (mergeOne now t state).Fresh → t.Fresh →
        (mergeOne now t state).Fresh := fun _ _ hfresh _ => hfresh
    exact run_invariant hturn hc h
  | expireStale ttlSec t => exact hc

end GossipState

namespace LatencyHint
variable {s : GossipState}

/-- What the hint writes over a row is the newest. -/
def Current (s : GossipState) : LatencyHint → Prop
  | .writing peer => (s.registry.get? peer.clusterId).isSome = true → s.Newest peer
  | _ => True

instance (s : GossipState) (hint : LatencyHint) : Decidable (hint.Current s) :=
  match hint with
  | .reading _ _ => .isTrue trivial
  | .writing _ => inferInstanceAs (Decidable (_ → _))
  | .done => .isTrue trivial

theorem fresh_next_iff (h : s.Fresh) (hint : LatencyHint) (now : ℚ) :
    (next s hint now).1.Fresh ↔ hint.Current s := by
  cases hint with
  | reading id sampleMs =>
    refine iff_of_true ?_ trivial
    rw [next]
    cases s.registry.get? id with
    | none => exact h
    | some peer => exact h
  | writing peer =>
    rw [next, Current]
    by_cases hrow : (s.registry.get? peer.clusterId).isSome = true
    · have hnone : ∀ x ∈ ([] : List PeerRecord), x = { peer with lastSeen := now } := by simp
      have hput := GossipState.fresh_put_iff h _ hnone
      rw [List.append_nil] at hput
      rw [if_pos hrow]
      exact hput.trans ⟨fun hnewest _ => hnewest,fun hnewest => hnewest hrow⟩
    · rw [if_neg hrow]
      exact iff_of_true h fun hrow' => absurd hrow' hrow
  | done => exact iff_of_true h trivial

/-- A hint adds no peer. -/
theorem get?_next {id : ClusterId} (h : s.registry.get? id = none) (hint : LatencyHint)
    (now : ℚ) : (next s hint now).1.registry.get? id = none := by
  cases hint with
  | reading id' sampleMs =>
    rw [next]
    cases s.registry.get? id' with
    | none => exact h
    | some peer => exact h
  | writing peer =>
    rw [next]
    by_cases hrow : (s.registry.get? peer.clusterId).isSome = true
    · rw [if_pos hrow]
      change (s.registry.put _).get? id = none
      rw [Table.get?_put, PeerRecord.key_eq, if_neg]
      · exact h
      · rintro rfl
        rw [h] at hrow
        cases hrow
    · rw [if_neg hrow]
      exact h
  | done => exact h

/-- `update_latency_hint` with the registry to itself. -/
def update (id : ClusterId) (sampleMs now : ℚ) (reg : PeerRegistry) : PeerRegistry :=
  match reg.get? id with
  | none => reg
  | some peer => reg.put { smoothed sampleMs peer with lastSeen := now }

theorem alone_update (s : GossipState) (id : ClusterId) (sampleMs now : ℚ) :
    Relation.ReflTransGen (program.Alone now) (s,.reading id sampleMs)
      ({ s with registry := update id sampleMs now s.registry },.done) := by
  have hstep : ∀ x : GossipState × LatencyHint, program.Alone now x (next x.1 x.2 now) :=
    fun x => rfl
  rw [update]
  cases hpeer : s.registry.get? id with
  | none =>
    have hread := hstep (s,.reading id sampleMs)
    rw [next, hpeer] at hread
    exact Relation.ReflTransGen.single hread
  | some peer =>
    have hread := hstep (s,.reading id sampleMs)
    rw [next, hpeer] at hread
    have hwrite := hstep (s,.writing (smoothed sampleMs peer))
    have hrow : (s.registry.get? (smoothed sampleMs peer).clusterId).isSome = true := by
      have hid : (smoothed sampleMs peer).clusterId = id := Table.key_of_get? hpeer
      rw [hid, hpeer]
      rfl
    rw [next, if_pos hrow] at hwrite
    exact (Relation.ReflTransGen.single hread).tail hwrite

/-- A hint keeps the names of the peers. -/
theorem keys_update (id : ClusterId) (sampleMs now : ℚ) (reg : PeerRegistry) :
    (update id sampleMs now reg).entries.map Keyed.key = reg.entries.map Keyed.key := by
  rw [update]
  cases hpeer : reg.get? id with
  | none => rfl
  | some peer =>
    have hid : peer.clusterId = id := Table.key_of_get? hpeer
    have hrow : reg.get? (Keyed.key { smoothed sampleMs peer with lastSeen := now }) =
        some peer := by
      change reg.get? peer.clusterId = _
      rw [hid, hpeer]
    exact Table.keys_put_of_some hrow

/-! ### Runs -/

def RowsFresh (s : GossipPool) : GossipEvent → Prop
  | .outside c => s.shared.StaysFresh c
  | _ => True

/-- No merge accepts a lower version than one accepted before it, and no hint writes one over a
row. -/
def InOrder (s : GossipPool) : GossipEvent → Prop
  | .outside c => s.shared.Rises c
  | e => Pool.AtAdvance (fun s _ hint _ => hint.Current s.shared) s e

/-- Neither the hints nor the merges take back a version that was accepted, and no hint brings a
peer back. -/
structure UndoNothing (reg : PeerRegistry) (events : List GossipEvent) : Prop where
  fresh : ∀ before after, events = before ++ after →
    (run (Pool.step program) ⟨⟨reg,[]⟩,[]⟩ before).shared.Fresh
  rows : Along (Pool.step program) RowsFresh ⟨⟨reg,[]⟩,[]⟩ events
  gone : ∀ before i now after, events = before ++ .advance i now :: after → ∀ id,
    (run (Pool.step program) ⟨⟨reg,[]⟩,[]⟩ before).shared.registry.get? id = none →
    (run (Pool.step program) ⟨⟨reg,[]⟩,[]⟩
      (before ++ [.advance i now])).shared.registry.get? id = none

theorem step_inOrder_iff {s : GossipPool} (h : s.shared.Fresh) (e : GossipEvent) :
    (s.step program e).shared.Fresh ∧ RowsFresh s e ↔ InOrder s e := by
  cases e with
  | outside c =>
    have hstays := GossipState.staysFresh_iff h c
    exact ⟨fun hc => hstays.mp hc.2,fun hc =>
      ⟨(hstays.mpr hc).fresh h,hstays.mpr hc⟩⟩
  | start request => exact iff_of_true ⟨h,trivial⟩ trivial
  | advance i now =>
    have hadvance : (s.step program (.advance i now)).shared.Fresh ↔
        Pool.AtAdvance (fun s _ hint _ => hint.Current s.shared) s
          (.advance i now : GossipEvent) := by
      refine Pool.advance_iff_atAdvance (R := fun t : GossipPool => t.shared.Fresh) h ?_
      intro hint hhint
      rw [Pool.step_advance hhint]
      exact fresh_next_iff h hint now
    exact (and_iff_left trivial).trans hadvance

theorem step_get?_none {s : GossipPool} {id : ClusterId} (h : s.shared.registry.get? id = none)
    (i : ℕ) (now : ℚ) :
    (s.step program (.advance i now)).shared.registry.get? id = none := by
  cases hhint : s.procs[i]? with
  | none =>
    rw [Pool.step_advance_none hhint]
    exact h
  | some hint =>
    rw [Pool.step_advance hhint]
    exact get?_next h hint now

/-- In a run of hints, merges and expiries nothing is undone exactly when no merge accepts a lower
version than one accepted before it, and no hint writes one over a row. -/
theorem undoNothing_iff (reg : PeerRegistry) (events : List GossipEvent) :
    UndoNothing reg events ↔ Along (Pool.step program) InOrder ⟨⟨reg,[]⟩,[]⟩ events := by
  have hinit : (⟨⟨reg,[]⟩,[]⟩ : GossipPool).shared.Fresh := fun _ _ _ _ => nofun
  have hsteps : Along (Pool.step program)
      (fun s e => (s.step program e).shared.Fresh ∧ RowsFresh s e) ⟨⟨reg,[]⟩,[]⟩ events ↔
      Along (Pool.step program) InOrder ⟨⟨reg,[]⟩,[]⟩ events :=
    along_congr (I := fun s : GossipPool => s.shared.Fresh) (fun _ _ hstep _ => hstep.1)
      (fun s e h => step_inOrder_iff h e) hinit
  have hfresh : (∀ before after, events = before ++ after →
      (run (Pool.step program) ⟨⟨reg,[]⟩,[]⟩ before).shared.Fresh) ↔
      Along (Pool.step program) (fun s e => (s.step program e).shared.Fresh) ⟨⟨reg,[]⟩,[]⟩
        events :=
    always_iff (P := fun s : GossipPool => s.shared.Fresh) hinit events
  rw [← hsteps, along_and]
  constructor
  · intro h
    exact ⟨hfresh.mp h.fresh,h.rows⟩
  · rintro ⟨halways,hrows⟩
    refine ⟨hfresh.mpr halways,hrows,fun before i now after _ id hnone => ?_⟩
    rw [run_concat]
    exact step_get?_none hnone i now

/-- A version that is merged between the two halves of a hint. -/
theorem hint_undoes_merge :
    ¬ ∀ (reg : PeerRegistry) (events : List GossipEvent),
      (∀ hint ∈ (run (Pool.step program) ⟨⟨reg,[]⟩,[]⟩ events).procs, hint = .done) →
      (run (Pool.step program) ⟨⟨reg,[]⟩,[]⟩ events).shared.Fresh := by
  intro h
  have hfresh := h (Table.empty.put { clusterId := "eu", publicUrl := "", version := 1 })
    [.start ("eu",10),.advance 0 1,
     .outside (.mergeState 2 [.record { clusterId := "eu", publicUrl := "", version := 2
                                        lastSeen := 2 }]),
     .advance 0 3] (by decide +kernel) "eu" _ rfl _ (List.mem_singleton_self _) rfl
  revert hfresh
  decide +kernel

end LatencyHint
end Arsonist.Mesh
