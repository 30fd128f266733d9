import Arsonist.Library.Paging
import Arsonist.Mesh.LatencyHints
import Arsonist.Mesh.MeshRouter
import Mathlib.Data.List.Perm.Subperm
import Mathlib.Data.String.Basic

/-! The envelopes that a node sends (`mesh/gossip.py`), and the peers that they carry. -/
namespace Arsonist.Mesh
open Arsonist.Library

/-- `random.sample`: so many of the elements, in any order. -/
structure Sample where
  pick : List PeerRecord → ℕ → List PeerRecord
  subperm : ∀ peers k, (pick peers k).Subperm peers
  length : ∀ peers k, k ≤ peers.length → (pick peers k).length = k

/-- The first elements are a sample. -/
def Sample.first : Sample where
  pick peers k := peers.take k
  subperm peers k := (List.take_sublist k peers).subperm
  length _ _ h := List.length_take_of_le h

/-- `pick_random_peers`. -/
def PeerRegistry.pickRandomPeers (reg : PeerRegistry) (sample : Sample) (exclude : ClusterId)
    (fanout : ℕ) : List PeerRecord :=
  let peers := reg.listPeers.filter fun peer => peer.clusterId ≠ exclude
  sample.pick peers (min fanout peers.length)

/-- What is sent of a peer. -/
def PeerRecord.gossipState (p : PeerRecord) : ClusterGossipState where
  clusterId := p.clusterId
  publicUrl := p.publicUrl
  region := p.region
  gpuCapacity := p.gpuCapacity
  load := p.load
  health := p.health
  queueDepth := p.queueDepth
  latencyMs := p.latencyEstimateMs
  heartbeatTs := p.lastSeen
  version := p.version
  reliabilityScore := p.reliabilityScore
  hopDistance := p.hopDistance

/-- A node's settings. -/
structure GossipService where
  localClusterId : ClusterId
  peerTtl : ℚ := 120
  gossipFanout : ℤ := 3
  seedUrls : List String := []

/-- What a tick meets: the time, the snapshot, the random choices, and the peers that accept their
envelope, with the time that it takes and the time after it. -/
structure Tick where
  t : ℚ
  snap : ClusterGossipState
  sample : Sample := .first
  uuids : ℕ → String × String := fun _ => ("","")
  accepted : List (ClusterId × ℚ × ℚ) := []

/-- An envelope on its way. -/
structure Push where
  url : String
  envelope : GossipEnvelope

namespace GossipService
variable (service : GossipService)

def fanout : ℕ := (max 1 service.gossipFanout).toNat

def cap : ℕ := max (service.fanout*4) 8

/-- The peers of an envelope. -/
def gossipPeers (reg : PeerRegistry) : List ClusterGossipState :=
  ((reg.listPeers.take service.cap).filter fun p => p.clusterId ≠ service.localClusterId).map
    PeerRecord.gossipState

/-- Where the envelopes of a tick go: to the seeds only if there is no peer. -/
def targets (tick : Tick) (reg : PeerRegistry) : List String :=
  let peers := reg.pickRandomPeers tick.sample service.localClusterId service.fanout
  if peers = [] then service.seedUrls else peers.map PeerRecord.publicUrl

/-- `_tick_once`: the registry afterwards, and the envelopes. -/
def tickOnce (tick : Tick) (reg : PeerRegistry) : PeerRegistry × List Push :=
  let reg := (reg.expireStale service.peerTtl tick.t).1
  (tick.accepted.foldl (fun reg r => LatencyHint.update r.1 r.2.1 r.2.2 reg) reg,
    (service.targets tick reg).zipIdx.map fun target =>
      { url := target.1 ++ "/mesh/gossip"
        envelope := { sender := tick.snap, peers := service.gossipPeers reg
                      traceId := (tick.uuids target.2).1, nonce := (tick.uuids target.2).2 } })

/-- An envelope that the node sends in a tick that leaves the registry as it is. -/
def Sends (reg : PeerRegistry) (envelope : GossipEnvelope) : Prop :=
  ∃ tick, (service.tickOnce tick reg).1 = reg ∧
    ∃ push ∈ (service.tickOnce tick reg).2, push.envelope = envelope

/-- Some envelope carries the peer, if the registry has it and it is not the node itself. -/
def Spreads (reg : PeerRegistry) (p : PeerRecord) : Prop :=
  p ∈ reg.entries → p.clusterId ≠ service.localClusterId →
    ∃ envelope, service.Sends reg envelope ∧
      p.clusterId ∈ envelope.peers.map ClusterGossipState.clusterId

variable {service} {reg : PeerRegistry}

theorem listPeers_sorted (reg : PeerRegistry) :
    reg.listPeers.Pairwise fun p q => p.clusterId < q.clusterId :=
  pairwise_insertionSort_key reg.nodup

theorem mem_listPeers {p : PeerRecord} : p ∈ reg.listPeers ↔ p ∈ reg.entries :=
  List.mem_insertionSort _

/-- The envelopes carry the first peers by name. -/
theorem mem_gossipPeers_iff {p : PeerRecord} (hp : p ∈ reg.entries)
    (hother : p.clusterId ≠ service.localClusterId) :
    p.clusterId ∈ (service.gossipPeers reg).map ClusterGossipState.clusterId ↔
      reg.entries.countP (fun q => q.clusterId < p.clusterId) < service.cap := by
  have hlisted := mem_listPeers.mpr hp
  have hperm := List.perm_insertionSort (fun a b : PeerRecord => a.clusterId ≤ b.clusterId)
    reg.entries
  rw [← hperm.countP_eq]
  change _ ↔ reg.listPeers.countP _ < _
  rw [← mem_take_iff (listPeers_sorted reg) hlisted, gossipPeers, List.map_map, List.mem_map]
  constructor
  · rintro ⟨q,hq,hid⟩
    have hq := List.mem_of_mem_filter hq
    have hkeys : q = p := by
      have hget := Table.get?_of_mem (mem_listPeers.mp (List.mem_of_mem_take hq))
      rw [PeerRecord.key_eq, show q.clusterId = p.clusterId from hid] at hget
      have hget' := Table.get?_of_mem hp
      rw [PeerRecord.key_eq, hget] at hget'
      exact Option.some.inj hget'
    exact hkeys ▸ hq
  · intro htake
    exact ⟨p,List.mem_filter.mpr ⟨htake,decide_eq_true hother⟩,rfl⟩

/-- Hints keep the names of the peers. -/
theorem keys_foldl_update (accepted : List (ClusterId × ℚ × ℚ)) (reg : PeerRegistry) :
    ((accepted.foldl (fun reg r => LatencyHint.update r.1 r.2.1 r.2.2 reg) reg).entries.map
      Keyed.key) = reg.entries.map Keyed.key := by
  induction accepted generalizing reg with
  | nil => rfl
  | cons r accepted ih =>
    rw [List.foldl_cons, ih, LatencyHint.keys_update]

/-- A tick that leaves the registry as it is finds no stale peer. -/
theorem expireStale_of_unchanged {tick : Tick} (h : (service.tickOnce tick reg).1 = reg) :
    (reg.expireStale service.peerTtl tick.t).1 = reg := by
  have hkeys := keys_foldl_update tick.accepted (reg.expireStale service.peerTtl tick.t).1
  rw [tickOnce] at h
  dsimp only at h
  rw [h] at hkeys
  refine Table.ext (List.filter_sublist.eq_of_length ?_)
  have hlength := congrArg List.length hkeys
  rw [List.length_map, List.length_map] at hlength
  exact hlength.symm

/-- All envelopes from an unchanged registry carry the same peers. -/
theorem peers_of_sends {envelope : GossipEnvelope} (h : service.Sends reg envelope) :
    envelope.peers = service.gossipPeers reg := by
  obtain ⟨tick,hsame,push,hpush,rfl⟩ := h
  have hreg := expireStale_of_unchanged hsame
  rw [tickOnce] at hpush
  dsimp only at hpush
  rw [hreg] at hpush
  obtain ⟨target,-,rfl⟩ := List.mem_map.mp hpush
  rfl

/-- There is a time at which no peer is stale. -/
theorem exists_fresh_time (ttlSec : ℚ) (reg : PeerRegistry) :
    ∃ t, (reg.expireStale ttlSec t).1 = reg := by
  have hbound : ∀ peers : List PeerRecord, ∃ t, ∀ p ∈ peers, t-p.lastSeen ≤ ttlSec := by
    intro peers
    induction peers with
    | nil => exact ⟨0,by simp⟩
    | cons p peers ih =>
      obtain ⟨t,ht⟩ := ih
      refine ⟨min t (p.lastSeen+ttlSec),List.forall_mem_cons.mpr ⟨?_,fun q hq => ?_⟩⟩
      · have hmin := min_le_right t (p.lastSeen+ttlSec)
        linarith
      · have hmin := min_le_left t (p.lastSeen+ttlSec)
        have hq := ht q hq
        linarith
  obtain ⟨t,ht⟩ := hbound reg.entries
  refine ⟨t,Table.ext (List.filter_eq_self.mpr fun p hp => ?_)⟩
  have hp := ht p hp
  simp only [Bool.not_eq_true', decide_eq_false_iff_not, not_lt]
  exact hp

/-- Every random choice among other peers takes one. -/
theorem targets_ne_nil {p : PeerRecord} (hp : p ∈ reg.entries)
    (hother : p.clusterId ≠ service.localClusterId) (tick : Tick) :
    service.targets tick reg ≠ [] := by
  have hlisted : p ∈ reg.listPeers.filter fun peer => peer.clusterId ≠ service.localClusterId :=
    List.mem_filter.mpr ⟨mem_listPeers.mpr hp,decide_eq_true hother⟩
  have hsome := List.length_pos_of_mem hlisted
  have hfanout : 1 ≤ service.fanout := by
    rw [fanout]
    omega
  have hpicked : reg.pickRandomPeers tick.sample service.localClusterId service.fanout ≠ [] := by
    rw [PeerRegistry.pickRandomPeers, ← List.length_pos_iff,
      tick.sample.length _ _ (min_le_right _ _)]
    exact lt_min hfanout hsome
  rw [targets, if_neg hpicked]
  exact fun hnil => hpicked (List.map_eq_nil_iff.mp hnil)

/-- A node with another peer sends an envelope. -/
theorem exists_sends {p : PeerRecord} (hp : p ∈ reg.entries)
    (hother : p.clusterId ≠ service.localClusterId) : ∃ envelope, service.Sends reg envelope := by
  obtain ⟨t,ht⟩ := exists_fresh_time service.peerTtl reg
  let tick : Tick := { t := t, snap := { clusterId := service.localClusterId, publicUrl := "" } }
  have hsame : (service.tickOnce tick reg).1 = reg := ht
  have hpushes : (service.tickOnce tick reg).2 ≠ [] := by
    rw [tickOnce]
    dsimp only
    rw [ht]
    intro hnil
    have hzip := List.map_eq_nil_iff.mp hnil
    exact targets_ne_nil hp hother tick (List.zipIdx_eq_nil_iff.mp hzip)
  obtain ⟨push,hpush⟩ := List.exists_mem_of_ne_nil _ hpushes
  exact ⟨push.envelope,tick,hsame,push,hpush,rfl⟩

/-- A peer is carried by some envelope exactly when fewer peers come before it by name than an
envelope has room for. -/
theorem spreads_iff (service : GossipService) (reg : PeerRegistry) (p : PeerRecord) :
    service.Spreads reg p ↔
      (p ∈ reg.entries → p.clusterId ≠ service.localClusterId →
        reg.entries.countP (fun q => q.clusterId < p.clusterId) < service.cap) := by
  refine forall₂_congr fun hp hother => ?_
  rw [← mem_gossipPeers_iff hp hother]
  constructor
  · rintro ⟨envelope,hsends,hcarried⟩
    rwa [peers_of_sends hsends] at hcarried
  · intro hcarried
    obtain ⟨envelope,hsends⟩ := exists_sends hp hother
    refine ⟨envelope,hsends,?_⟩
    rwa [peers_of_sends hsends]

/-- The peers `p`, `pp`, and so on. -/
def peerNamed (i : ℕ) : PeerRecord :=
  { clusterId := String.ofList (List.replicate (i+1) 'p'), publicUrl := "" }

def manyPeers (n : ℕ) : PeerRegistry where
  entries := (List.range n).map peerNamed
  nodup := by
    rw [List.map_map]
    refine List.nodup_range.map fun i i' h => ?_
    have hlength := congrArg (fun s : String => s.toList.length) h
    simpa [peerNamed] using hlength

/-- With the default fanout, an envelope has room for twelve peers. -/
theorem not_spreads :
    ¬ ({ localClusterId := "us" } : GossipService).Spreads (manyPeers 13) (peerNamed 12) := by
  intro h
  have hp : peerNamed 12 ∈ (manyPeers 13).entries :=
    List.mem_map_of_mem (List.mem_range.mpr (by omega))
  have hother : (peerNamed 12).clusterId ≠ "us" := by decide +kernel
  obtain ⟨envelope,hsends,hcarried⟩ := h hp hother
  rw [peers_of_sends hsends, mem_gossipPeers_iff hp hother] at hcarried
  revert hcarried
  decide +kernel

end GossipService
end Arsonist.Mesh
