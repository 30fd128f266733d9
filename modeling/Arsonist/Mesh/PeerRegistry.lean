import Arsonist.Library.Registers
import Arsonist.Mesh.MeshProtocol

/-! The peer cache of `mesh/peer_registry.py` and the gossip that fills it: registries that
receive the same states agree exactly when no state is far ahead of the newest version. -/
namespace Arsonist.Mesh
open Arsonist.Library

structure PeerRecord where
  clusterId : ClusterId
  publicUrl : String
  region : String := "default"
  gpuCapacity : ℤ := 0
  load : ℚ := 0
  health : String := "healthy"
  latencyEstimateMs : ℚ := 0
  lastSeen : ℚ := 0
  queueDepth : ℤ := 0
  version : ℤ := 0
  reliabilityScore : ℚ := 1
  hopDistance : ℤ := 1
  deriving DecidableEq

instance : Keyed PeerRecord ClusterId := ⟨fun peer => peer.clusterId⟩

@[simp] theorem PeerRecord.key_eq (peer : PeerRecord) : Keyed.key peer = peer.clusterId := rfl

/-- What `merge_state` takes: gossip, or a record as it is. -/
inductive PeerState
  | gossip (state : ClusterGossipState)
  | record (peer : PeerRecord)

abbrev PeerRegistry := Table PeerRecord

namespace PeerRegistry

/-- A heartbeat at time zero counts as none, and a hop distance of zero as one. -/
def gossipRecord (now : ℚ) (s : ClusterGossipState) : PeerRecord where
  clusterId := s.clusterId
  publicUrl := Text.rstrip '/' s.publicUrl
  region := s.region
  gpuCapacity := s.gpuCapacity
  load := s.load
  health := s.health
  latencyEstimateMs := s.latencyMs
  lastSeen := if s.heartbeatTs = 0 then now else s.heartbeatTs
  queueDepth := s.queueDepth
  version := s.version
  reliabilityScore := s.reliabilityScore
  hopDistance := if s.hopDistance = 0 then 1 else s.hopDistance

def toPeerRecord (now : ℚ) : PeerState → PeerRecord
  | .record peer => peer
  | .gossip s => gossipRecord now s

def shouldReplace (cur nxt : PeerRecord) : Bool :=
  if nxt.version > cur.version then true
  else if nxt.version = cur.version ∧ nxt.lastSeen ≥ cur.lastSeen then true
  else nxt.lastSeen > cur.lastSeen+1

/-- `merge_state`: the registry afterwards, and the number of rows written. -/
def mergeState (now : ℚ) (reg : PeerRegistry) : List PeerState → PeerRegistry × ℕ
  | [] => (reg,0)
  | s :: states =>
    let pr := toPeerRecord now s
    match reg.get? pr.clusterId with
    | some cur =>
      if shouldReplace cur pr then
        let rest := mergeState now (reg.put pr) states
        (rest.1,rest.2+1)
      else mergeState now reg states
    | none =>
      let rest := mergeState now (reg.put pr) states
      (rest.1,rest.2+1)

/-- `GossipService.handle_incoming`: one merge of the sender and its peers. -/
def handleIncoming (now : ℚ) (reg : PeerRegistry) (envelope : GossipEnvelope) :
    PeerRegistry × ℕ :=
  mergeState now reg ((envelope.sender :: envelope.peers).map .gossip)

/-- `expire_stale`: the registry afterwards, and the number of rows removed. -/
def expireStale (ttlSec t : ℚ) (reg : PeerRegistry) : PeerRegistry × ℕ :=
  let stale : PeerRecord → Bool := fun peer => ttlSec < t-peer.lastSeen
  (⟨reg.entries.filter fun peer => !stale peer,
    reg.nodup.sublist (List.filter_sublist.map Keyed.key)⟩,reg.entries.countP stale)

/-- A peer that is left was there. -/
theorem get?_expireStale {ttlSec t : ℚ} {reg : PeerRegistry} {id : ClusterId}
    {peer : PeerRecord} (h : (expireStale ttlSec t reg).1.get? id = some peer) :
    reg.get? id = some peer := by
  have hmem := List.mem_of_mem_filter (Table.mem_of_get? h)
  rw [← Table.key_of_get? h]
  exact Table.get?_of_mem hmem

/-- Merging a list of states is merging its records one at a time. -/
theorem mergeState_eq_foldl (now : ℚ) (states : List PeerState) (reg : PeerRegistry) :
    (mergeState now reg states).1 =
      (states.map (toPeerRecord now)).foldl
        (Table.merge fun cur nxt => shouldReplace cur nxt = true) reg := by
  induction states generalizing reg with
  | nil => rfl
  | cons s states ih =>
    rw [List.map_cons, List.foldl_cons, mergeState, Table.merge, PeerRecord.key_eq]
    cases reg.get? (toPeerRecord now s).clusterId with
    | none => exact ih _
    | some cur =>
      by_cases hr : shouldReplace cur (toPeerRecord now s) = true
      · simp only [hr, if_true]
        exact ih _
      · simp only [hr]
        exact ih _

/-- The calls of `merge_state` that a registry serves, each with its time and its states. -/
def receiveAll (reg : PeerRegistry) (calls : List (ℚ × List ClusterGossipState)) :
    PeerRegistry :=
  calls.foldl (fun reg call => (mergeState call.1 reg (call.2.map .gossip)).1) reg

/-- A gossip message is one call. -/
theorem handleIncoming_eq (now : ℚ) (reg : PeerRegistry) (envelope : GossipEnvelope) :
    (handleIncoming now reg envelope).1 =
      receiveAll reg [(now,envelope.sender :: envelope.peers)] := rfl

/-- The calls bring the given states and no others, in any order, grouping and repetition. -/
def Brings (calls : List (ℚ × List ClusterGossipState)) (states : List ClusterGossipState) :
    Prop :=
  ∀ s, s ∈ calls.flatMap Prod.snd ↔ s ∈ states

/-- Two empty registries that receive the states end with the same records. -/
def Converges (states : List ClusterGossipState) : Prop :=
  ∀ first second, Brings first states → Brings second states →
    ∀ id, (receiveAll .empty first).get? id = (receiveAll .empty second).get? id

/-- The newest state of its cluster, by version and then by heartbeat. -/
def Newest (states : List ClusterGossipState) (v : ClusterGossipState) : Prop :=
  v ∈ states ∧ ∀ s ∈ states, s.clusterId = v.clusterId →
    s.version < v.version ∨ s.version = v.version ∧ s.heartbeatTs ≤ v.heartbeatTs

/-- No state's heartbeat is more than a second after that of the newest of its cluster. -/
def NoneAhead (states : List ClusterGossipState) : Prop :=
  ∀ v, Newest states v → ∀ x ∈ states, x.clusterId = v.clusterId →
    x.heartbeatTs ≤ v.heartbeatTs+1

/-! ### Convergence -/

/-- One state gives way to another of its cluster. -/
def gives (cur nxt : ClusterGossipState) : Bool :=
  shouldReplace (gossipRecord 0 cur) (gossipRecord 0 nxt)

/-- The states of one cluster, in every order and repetition, settle on the same state. -/
def Settles (states : List ClusterGossipState) (id : ClusterId) : Prop :=
  ∀ l₁ l₂ : List ClusterGossipState,
    (∀ s, s ∈ l₁ ↔ s ∈ states.filter fun s => s.clusterId = id) →
    (∀ s, s ∈ l₂ ↔ s ∈ states.filter fun s => s.clusterId = id) →
    Register.settle (fun cur nxt => gives cur nxt = true) l₁ =
      Register.settle (fun cur nxt => gives cur nxt = true) l₂

section
variable {states : List ClusterGossipState}

/-- Every cluster that is heard of has a newest state. -/
theorem exists_newest {s : ClusterGossipState} (hs : s ∈ states) :
    ∃ v, Newest states v ∧ v.clusterId = s.clusterId := by
  let mine := (states.filter fun x => x.clusterId = s.clusterId).toFinset
  have hmine : ∀ x, x ∈ mine ↔ x ∈ states ∧ x.clusterId = s.clusterId := by
    intro x
    simp [mine]
  obtain ⟨v,hv,hmax⟩ := mine.exists_max_image (fun x => toLex (x.version,x.heartbeatTs))
    ⟨s,(hmine s).mpr ⟨hs,rfl⟩⟩
  obtain ⟨hvs,hvid⟩ := (hmine v).mp hv
  refine ⟨v,⟨hvs,fun x hx hid => ?_⟩,hvid⟩
  exact Prod.Lex.toLex_le_toLex.mp (hmax x ((hmine x).mpr ⟨hx,hid.trans hvid⟩))

variable (stamped : ∀ s ∈ states, s.heartbeatTs ≠ 0)
include stamped

/-- With heartbeats set, the time of the call does not show in the records. -/
theorem gossipRecord_eq (now : ℚ) {s : ClusterGossipState} (hs : s ∈ states) :
    gossipRecord now s = gossipRecord 0 s := by
  simp [gossipRecord, stamped s hs]

theorem lastSeen_gossipRecord {s : ClusterGossipState} (hs : s ∈ states) :
    (gossipRecord 0 s).lastSeen = s.heartbeatTs := if_neg (stamped s hs)

theorem gives_iff {s t : ClusterGossipState} (hs : s ∈ states) (ht : t ∈ states) :
    gives s t = true ↔ s.version < t.version ∨
      t.version = s.version ∧ s.heartbeatTs ≤ t.heartbeatTs ∨
      s.heartbeatTs+1 < t.heartbeatTs := by
  unfold gives shouldReplace
  rw [lastSeen_gossipRecord stamped hs, lastSeen_gossipRecord stamped ht]
  change (if s.version < t.version then true
    else if t.version = s.version ∧ s.heartbeatTs ≤ t.heartbeatTs then true
    else decide (s.heartbeatTs+1 < t.heartbeatTs)) = true ↔ _
  split_ifs with h₁ h₂
  · simp [h₁]
  · simp [h₂]
  · simp only [decide_eq_true_eq]
    tauto

/-- What a registry holds for a cluster is what the states of that cluster settle on. -/
theorem get?_receiveAll {calls : List (ℚ × List ClusterGossipState)}
    (hcalls : ∀ s ∈ calls.flatMap Prod.snd, s ∈ states) (reg : PeerRegistry) (id : ClusterId) :
    (receiveAll reg calls).get? id =
      (((calls.flatMap Prod.snd).map (gossipRecord 0)).filter fun r => r.clusterId = id).foldl
        (Register.receive fun cur nxt => shouldReplace cur nxt = true) (reg.get? id) := by
  induction calls generalizing reg with
  | nil => rfl
  | cons call calls ih =>
    have hhead : ∀ s ∈ call.2, s ∈ states := fun s hs => hcalls s (by simp [hs])
    have hrecords : (call.2.map PeerState.gossip).map (toPeerRecord call.1) =
        call.2.map (gossipRecord 0) := by
      rw [List.map_map]
      exact List.map_congr_left fun s hs => gossipRecord_eq stamped call.1 (hhead s hs)
    have hrest := ih (fun s hs => hcalls s (by simp only [List.flatMap_cons]; simp [hs]))
      (mergeState call.1 reg (call.2.map .gossip)).1
    rw [List.flatMap_cons, List.map_append, List.filter_append, List.foldl_append]
    refine hrest.trans ?_
    rw [mergeState_eq_foldl, Table.get?_foldl_merge, hrecords]
    rfl

theorem get?_receiveAll_empty {calls : List (ℚ × List ClusterGossipState)}
    (hcalls : ∀ s ∈ calls.flatMap Prod.snd, s ∈ states) (id : ClusterId) :
    (receiveAll .empty calls).get? id =
      (Register.settle (fun cur nxt => gives cur nxt = true)
        ((calls.flatMap Prod.snd).filter fun s => s.clusterId = id)).map (gossipRecord 0) := by
  rw [get?_receiveAll stamped hcalls, List.filter_map]
  exact Register.foldl_receive_map (gossipRecord 0) _ none

variable (distinct : ∀ s ∈ states, ∀ t ∈ states, s.clusterId = t.clusterId →
  s.version = t.version → s.heartbeatTs = t.heartbeatTs → s = t)
include distinct

theorem gossipRecord_injective {s t : ClusterGossipState} (hs : s ∈ states) (ht : t ∈ states)
    (h : gossipRecord 0 s = gossipRecord 0 t) : s = t := by
  have hseen : (gossipRecord 0 s).lastSeen = (gossipRecord 0 t).lastSeen := by rw [h]
  rw [lastSeen_gossipRecord stamped hs, lastSeen_gossipRecord stamped ht] at hseen
  have hid : (gossipRecord 0 s).clusterId = (gossipRecord 0 t).clusterId := by rw [h]
  have hversion : (gossipRecord 0 s).version = (gossipRecord 0 t).version := by rw [h]
  exact distinct s hs t ht hid hversion hseen

theorem map_gossipRecord_injective {o p : Option ClusterGossipState}
    (ho : ∀ s ∈ o, s ∈ states) (hp : ∀ s ∈ p, s ∈ states)
    (h : o.map (gossipRecord 0) = p.map (gossipRecord 0)) : o = p := by
  cases o with
  | none => cases p with
    | none => rfl
    | some t => simp at h
  | some s => cases p with
    | none => simp at h
    | some t =>
      have hst := Option.some.inj h
      rw [gossipRecord_injective stamped distinct (ho s rfl) (hp t rfl) hst]

/-- Registries converge if and only if each cluster by itself settles. -/
theorem converges_iff_settles : Converges states ↔ ∀ id, Settles states id := by
  constructor
  · intro h id l₁ l₂ h₁ h₂
    let others := states.filter fun s => s.clusterId ≠ id
    have hbrings : ∀ l : List ClusterGossipState,
        (∀ s, s ∈ l ↔ s ∈ states.filter fun s => s.clusterId = id) →
        Brings [(0,l ++ others)] states ∧
          (l ++ others).filter (fun s => s.clusterId = id) = l := by
      intro l hl
      constructor
      · intro s
        by_cases hid : s.clusterId = id <;> simp [others, hl, hid]
      · have hmine : l.filter (fun s => s.clusterId = id) = l := by
          rw [List.filter_eq_self]
          intro s hs
          exact (List.mem_filter.mp ((hl s).mp hs)).2
        rw [List.filter_append, hmine]
        simp [others]
    obtain ⟨hb₁,hf₁⟩ := hbrings l₁ h₁
    obtain ⟨hb₂,hf₂⟩ := hbrings l₂ h₂
    have hsame := h _ _ hb₁ hb₂ id
    rw [get?_receiveAll_empty stamped fun s hs => (hb₁ s).mp hs,
      get?_receiveAll_empty stamped fun s hs => (hb₂ s).mp hs] at hsame
    simp only [List.flatMap_cons, List.flatMap_nil, List.append_nil, hf₁, hf₂] at hsame
    have hstates : ∀ l : List ClusterGossipState,
        (∀ s, s ∈ l ↔ s ∈ states.filter fun s => s.clusterId = id) →
        ∀ s ∈ Register.settle (fun cur nxt => gives cur nxt = true) l, s ∈ states :=
      fun l hl s hs => (List.mem_filter.mp ((hl s).mp (Register.settle_mem hs))).1
    exact map_gossipRecord_injective stamped distinct (hstates l₁ h₁) (hstates l₂ h₂) hsame
  · intro h first second hfirst hsecond id
    rw [get?_receiveAll_empty stamped fun s hs => (hfirst s).mp hs,
      get?_receiveAll_empty stamped fun s hs => (hsecond s).mp hs]
    congr 1
    apply h id
    · intro s
      rw [List.mem_filter, List.mem_filter, hfirst]
    · intro s
      rw [List.mem_filter, List.mem_filter, hsecond]

/-- A cluster settles if and only if its newest state gives way to no other. -/
theorem settles_iff {v : ClusterGossipState} (hv : Newest states v) :
    Settles states v.clusterId ↔
      ∀ x ∈ states, x.clusterId = v.clusterId → x.heartbeatTs ≤ v.heartbeatTs+1 := by
  have hmine : ∀ x, (x ∈ states.filter fun s => s.clusterId = v.clusterId) ↔
      x ∈ states ∧ x.clusterId = v.clusterId := fun x => by simp
  have habove : ∀ x ∈ states.filter (fun s => s.clusterId = v.clusterId),
      gives x v = true := by
    intro x hx
    obtain ⟨hxs,hid⟩ := (hmine x).mp hx
    rw [gives_iff stamped hxs hv.1]
    obtain hlt | ⟨heq,hle⟩ := hv.2 x hxs hid
    · exact Or.inl hlt
    · exact Or.inr (Or.inl ⟨heq.symm,hle⟩)
  rw [Settles, Register.settles_alike_iff ((hmine v).mpr ⟨hv.1,rfl⟩) habove]
  constructor
  · intro h x hxs hid
    by_contra hlate
    have hgives : gives v x = true :=
      (gives_iff stamped hv.1 hxs).mpr (Or.inr (Or.inr (lt_of_not_ge hlate)))
    rw [h x ((hmine x).mpr ⟨hxs,hid⟩) hgives] at hlate
    linarith
  · intro h x hx hgives
    obtain ⟨hxs,hid⟩ := (hmine x).mp hx
    have hnot := h x hxs hid
    obtain hlt | ⟨heq,hle⟩ | hahead := (gives_iff stamped hv.1 hxs).mp hgives
    · rcases hv.2 x hxs hid with hgt | ⟨heq,_⟩ <;> omega
    · obtain hgt | ⟨_,hge⟩ := hv.2 x hxs hid
      · omega
      · exact distinct x hxs v hv.1 hid heq (le_antisymm hge hle)
    · linarith

end

/-- A state of some cluster, as the examples need it. -/
def stateOf (version : ℤ) (heartbeatTs : ℚ) : ClusterGossipState :=
  { clusterId := "eu", publicUrl := "http://eu:8000/", version := version
    heartbeatTs := heartbeatTs }

end PeerRegistry
end Arsonist.Mesh
