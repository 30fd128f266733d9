import Mathlib.Data.List.MinMax
import Arsonist.Library.Steps
import Arsonist.Library.Sums

/-! The peers of `networking/overlay_network.py`. A new peer may push out the one that was idle the
longest, and a peer that was idle for too long is disconnected but kept. -/
namespace Arsonist.Networking
open Arsonist.Library

inductive TransportProtocol
  | tcp
  | quic
  | wireguard
  deriving DecidableEq

structure PeerConnection where
  peerId : String
  endpoint : String
  protocol : TransportProtocol := .tcp
  connected : Bool := false
  establishedAt : ℚ := 0
  lastActivity : ℚ := 0
  bytesSent : ℤ := 0
  bytesReceived : ℤ := 0
  latencyMs : ℚ := 0

instance : Keyed PeerConnection String := ⟨PeerConnection.peerId⟩

namespace PeerConnection
variable (p : PeerConnection)

def carry (now : ℚ) (bytesSent bytesReceived : ℤ) : PeerConnection :=
  { p with
    bytesSent := p.bytesSent+bytesSent
    bytesReceived := p.bytesReceived+bytesReceived
    lastActivity := now }

def disconnect : PeerConnection := { p with connected := false }

/-- Nothing was heard of the peer for three heartbeats. -/
def TimedOut (heartbeatInterval ts : ℚ) : Prop := heartbeatInterval*3 < ts-p.lastActivity

instance (heartbeatInterval ts : ℚ) : Decidable (p.TimedOut heartbeatInterval ts) :=
  inferInstanceAs (Decidable (heartbeatInterval*3 < ts-p.lastActivity))

def check (heartbeatInterval ts : ℚ) : PeerConnection :=
  if p.connected ∧ p.TimedOut heartbeatInterval ts then p.disconnect else p

@[simp] theorem bytesSent_carry (now : ℚ) (bytesSent bytesReceived : ℤ) :
    (p.carry now bytesSent bytesReceived).bytesSent = p.bytesSent+bytesSent := rfl

@[simp] theorem bytesReceived_carry (now : ℚ) (bytesSent bytesReceived : ℤ) :
    (p.carry now bytesSent bytesReceived).bytesReceived = p.bytesReceived+bytesReceived := rfl

theorem key_disconnect : Keyed.key p.disconnect = Keyed.key p := rfl

theorem key_check (heartbeatInterval ts : ℚ) :
    Keyed.key (p.check heartbeatInterval ts) = Keyed.key p := by
  rw [check]
  split_ifs <;> rfl

end PeerConnection

/-- The peers with what all of them have carried, and as history the connections that are gone. -/
structure OverlayNetwork where
  maxConnections : ℤ := 100
  heartbeatInterval : ℚ := 15
  peers : Table PeerConnection := .empty
  totalBytesSent : ℤ := 0
  totalBytesReceived : ℤ := 0
  gone : List PeerConnection := []

/-- A call with the times that it reads, those of a new peer before it takes the lock. -/
inductive OverlayCall
  | addPeer (peerId endpoint : String) (protocol : TransportProtocol)
      (establishedAt lastActivity : ℚ)
  | removePeer (peerId : String)
  | recordTraffic (now : ℚ) (peerId : String) (bytesSent bytesReceived : ℤ)
  | updateLatency (peerId : String) (latencyMs : ℚ)
  | checkPeers (ts : ℚ)
  | stop

namespace OverlayNetwork
variable (s : OverlayNetwork)

/-- The connection is no longer one of the peers. -/
def drop (peerId : String) : OverlayNetwork :=
  { s with
    peers := s.peers.erase peerId
    gone := s.gone ++ (s.peers.get? peerId).toList }

/-- The first of the peers that were idle the longest. -/
def idlePeer : Option PeerConnection := s.peers.entries.argmin PeerConnection.lastActivity

def evictIdlePeer : OverlayNetwork :=
  match s.idlePeer with
  | none => s
  | some peer => s.drop peer.peerId

def Full : Prop := s.maxConnections ≤ s.peers.entries.length

instance : Decidable s.Full := inferInstanceAs (Decidable (s.maxConnections ≤ _))

def addPeer (conn : PeerConnection) : OverlayNetwork :=
  let s := if s.Full then s.evictIdlePeer else s
  { s with
    peers := s.peers.put conn
    gone := s.gone ++ (s.peers.get? conn.peerId).toList }

def recordTraffic (now : ℚ) (peerId : String) (bytesSent bytesReceived : ℤ) : OverlayNetwork :=
  match s.peers.get? peerId with
  | none => s
  | some _ =>
    { s with
      peers := s.peers.modify peerId fun p => p.carry now bytesSent bytesReceived
      totalBytesSent := s.totalBytesSent+bytesSent
      totalBytesReceived := s.totalBytesReceived+bytesReceived }

def updateLatency (peerId : String) (latencyMs : ℚ) : OverlayNetwork :=
  { s with peers := s.peers.modify peerId fun p => { p with latencyMs := latencyMs } }

def checkPeers (ts : ℚ) : OverlayNetwork :=
  { s with
    peers := s.peers.mapped (fun p => p.check s.heartbeatInterval ts)
      fun p => p.key_check s.heartbeatInterval ts }

def stop : OverlayNetwork :=
  { s with peers := s.peers.mapped PeerConnection.disconnect PeerConnection.key_disconnect }

end OverlayNetwork

namespace OverlayCall

/-- The connection that a call makes to a peer. -/
def added? : OverlayCall → Option PeerConnection
  | addPeer peerId endpoint protocol establishedAt lastActivity =>
    some { peerId := peerId, endpoint := endpoint, protocol := protocol, connected := true,
           establishedAt := establishedAt, lastActivity := lastActivity }
  | _ => none

/-- What a call makes of a connection that stays. -/
def apply (heartbeatInterval : ℚ) (p : PeerConnection) : OverlayCall → PeerConnection
  | recordTraffic now peerId bytesSent bytesReceived =>
    if peerId = p.peerId then p.carry now bytesSent bytesReceived else p
  | updateLatency peerId latencyMs =>
    if peerId = p.peerId then { p with latencyMs := latencyMs } else p
  | checkPeers ts => p.check heartbeatInterval ts
  | stop => p.disconnect
  | _ => p

end OverlayCall

namespace OverlayNetwork

def exec (s : OverlayNetwork) : OverlayCall → OverlayNetwork
  | .addPeer peerId endpoint protocol establishedAt lastActivity =>
    s.addPeer { peerId := peerId, endpoint := endpoint, protocol := protocol, connected := true,
                establishedAt := establishedAt, lastActivity := lastActivity }
  | .removePeer peerId => s.drop peerId
  | .recordTraffic now peerId bytesSent bytesReceived =>
    s.recordTraffic now peerId bytesSent bytesReceived
  | .updateLatency peerId latencyMs => s.updateLatency peerId latencyMs
  | .checkPeers ts => s.checkPeers ts
  | .stop => s.stop

/-- The peer that a call takes away: the one that it removes, or one that has to make room. -/
def lost? (s : OverlayNetwork) : OverlayCall → Option String
  | .addPeer _ _ _ _ _ => if s.Full then s.idlePeer.map PeerConnection.peerId else none
  | .removePeer peerId => some peerId
  | _ => none

variable {s : OverlayNetwork}

/-- A peer that has to make room was idle the longest, when there was no room. -/
theorem idlePeer_spec {p : PeerConnection} (h : s.idlePeer = some p) :
    p ∈ s.peers.entries ∧ ∀ q ∈ s.peers.entries, p.lastActivity ≤ q.lastActivity :=
  ⟨List.argmin_mem h,fun _ hq => List.le_of_mem_argmin hq h⟩

theorem get?_drop (s : OverlayNetwork) (peerId id : String) :
    (s.drop peerId).peers.get? id = if id = peerId then none else s.peers.get? id :=
  Table.get?_erase s.peers peerId id

theorem get?_evictIdlePeer (s : OverlayNetwork) (id : String) :
    s.evictIdlePeer.peers.get? id =
      if s.idlePeer.map PeerConnection.peerId = some id then none else s.peers.get? id := by
  rw [evictIdlePeer]
  cases s.idlePeer with
  | none => rw [if_neg (by simp)]
  | some p => simp [get?_drop, eq_comm]

theorem get?_addPeer (s : OverlayNetwork) (conn : PeerConnection) (id : String) :
    (s.addPeer conn).peers.get? id =
      if id = conn.peerId then some conn
      else if s.Full ∧ s.idlePeer.map PeerConnection.peerId = some id then none
      else s.peers.get? id := by
  rw [addPeer, Table.get?_put]
  refine if_congr Iff.rfl rfl ?_
  by_cases hfull : s.Full
  · rw [if_pos hfull, get?_evictIdlePeer]
    simp [hfull]
  · simp [hfull]

/-- A change of one connection. -/
theorem get?_modify (t : Table PeerConnection) (peerId : String)
    {f : PeerConnection → PeerConnection} (hf : ∀ p, (f p).peerId = p.peerId) (id : String) :
    (t.modify peerId f).get? id =
      (t.get? id).map fun p => if peerId = p.peerId then f p else p := by
  rw [Table.get?_modify t peerId f hf]
  cases hget : t.get? id with
  | none =>
    split_ifs with hid
    · rw [← hid, hget]
      rfl
    · rfl
  | some p =>
    have hp : p.peerId = id := Table.key_of_get? hget
    split_ifs with hid
    · simp [← hid, hget, hp]
    · simp [hp, Ne.symm hid]

/-- What a call makes of the connection to a peer. -/
theorem get?_exec (s : OverlayNetwork) (call : OverlayCall) (id : String) :
    (s.exec call).peers.get? id =
      (call.added?.filter fun c => c.peerId = id).or
        (if s.lost? call = some id then none
          else (s.peers.get? id).map (OverlayCall.apply s.heartbeatInterval · call)) := by
  cases call with
  | addPeer peerId endpoint protocol establishedAt lastActivity =>
    simp only [exec, get?_addPeer, OverlayCall.added?, lost?, OverlayCall.apply, Option.map_id']
    by_cases hid : id = peerId
    · simp [Option.filter_some, hid]
    · by_cases hfull : s.Full <;> simp [Option.filter_some, hid, Ne.symm hid, hfull]
  | removePeer peerId =>
    simp only [exec, get?_drop, OverlayCall.added?, lost?, OverlayCall.apply, Option.map_id']
    simp [eq_comm]
  | recordTraffic now peerId bytesSent bytesReceived =>
    simp only [exec, OverlayCall.added?, lost?, OverlayCall.apply]
    unfold recordTraffic
    cases hget : s.peers.get? peerId with
    | none =>
      cases hid : s.peers.get? id with
      | none => simp
      | some p =>
        have hp : p.peerId = id := Table.key_of_get? hid
        have hne : peerId ≠ id := by
          rintro rfl
          rw [hget] at hid
          cases hid
        simp [hp, hne]
    | some p =>
      exact get?_modify s.peers peerId
        (f := fun p => p.carry now bytesSent bytesReceived) (fun _ => rfl) id
  | updateLatency peerId latencyMs =>
    exact get?_modify s.peers peerId
      (f := fun p => { p with latencyMs := latencyMs }) (fun _ => rfl) id
  | checkPeers ts =>
    exact Table.get?_mapped s.peers (fun p => p.key_check s.heartbeatInterval ts) id
  | stop => exact Table.get?_mapped s.peers PeerConnection.key_disconnect id

theorem limits_exec (s : OverlayNetwork) (call : OverlayCall) :
    (s.exec call).maxConnections = s.maxConnections ∧
      (s.exec call).heartbeatInterval = s.heartbeatInterval := by
  cases call with
  | addPeer peerId endpoint protocol establishedAt lastActivity =>
    simp only [exec, addPeer, evictIdlePeer, drop]
    split_ifs
    · cases s.idlePeer <;> exact ⟨rfl,rfl⟩
    · exact ⟨rfl,rfl⟩
  | recordTraffic now peerId bytesSent bytesReceived =>
    simp only [exec, recordTraffic]
    cases s.peers.get? peerId <;> exact ⟨rfl,rfl⟩
  | removePeer peerId => exact ⟨rfl,rfl⟩
  | updateLatency peerId latencyMs => exact ⟨rfl,rfl⟩
  | checkPeers ts => exact ⟨rfl,rfl⟩
  | stop => exact ⟨rfl,rfl⟩

/-- What was carried is what the connections carried, those that are gone included. -/
structure Balanced (s : OverlayNetwork) : Prop where
  sent : s.totalBytesSent = s.peers.sum PeerConnection.bytesSent +
    (s.gone.map PeerConnection.bytesSent).sum
  received : s.totalBytesReceived = s.peers.sum PeerConnection.bytesReceived +
    (s.gone.map PeerConnection.bytesReceived).sum

/-- What is lost of a table goes to the history. -/
theorem sum_gone (o : Option PeerConnection) (gone : List PeerConnection)
    (f : PeerConnection → ℤ) :
    ((gone ++ o.toList).map f).sum = (gone.map f).sum+o.elim 0 f := by
  cases o <;> simp

theorem Balanced.drop (h : s.Balanced) (peerId : String) : (s.drop peerId).Balanced := by
  constructor
  · simp only [OverlayNetwork.drop, Table.sum_erase, sum_gone, h.sent]
    abel
  · simp only [OverlayNetwork.drop, Table.sum_erase, sum_gone, h.received]
    abel

theorem Balanced.evictIdlePeer (h : s.Balanced) : s.evictIdlePeer.Balanced := by
  unfold OverlayNetwork.evictIdlePeer
  cases s.idlePeer with
  | none => exact h
  | some p => exact h.drop p.peerId

theorem Balanced.addPeer (h : s.Balanced) {conn : PeerConnection} (hsent : conn.bytesSent = 0)
    (hreceived : conn.bytesReceived = 0) : (s.addPeer conn).Balanced := by
  have hroom : (if s.Full then s.evictIdlePeer else s).Balanced := by
    split_ifs
    · exact h.evictIdlePeer
    · exact h
  unfold OverlayNetwork.addPeer
  generalize (if s.Full then s.evictIdlePeer else s) = s at hroom
  constructor
  · simp only [Table.sum_put, sum_gone, hroom.sent, hsent, Keyed.key]
    abel
  · simp only [Table.sum_put, sum_gone, hroom.received, hreceived, Keyed.key]
    abel

theorem Balanced.recordTraffic (h : s.Balanced) (now : ℚ) (peerId : String)
    (bytesSent bytesReceived : ℤ) :
    (s.recordTraffic now peerId bytesSent bytesReceived).Balanced := by
  unfold OverlayNetwork.recordTraffic
  cases hget : s.peers.get? peerId with
  | none => exact h
  | some p =>
    have hkey : ∀ p : PeerConnection,
        Keyed.key (p.carry now bytesSent bytesReceived) = Keyed.key p := fun _ => rfl
    constructor
    · simp only [Table.sum_modify s.peers peerId hkey, hget, Option.elim_some, h.sent,
        PeerConnection.bytesSent_carry]
      abel
    · simp only [Table.sum_modify s.peers peerId hkey, hget, Option.elim_some, h.received,
        PeerConnection.bytesReceived_carry]
      abel

theorem sum_updateLatency (s : OverlayNetwork) (peerId : String) (latencyMs : ℚ)
    {f : PeerConnection → ℤ}
    (hf : ∀ p : PeerConnection, f { p with latencyMs := latencyMs } = f p) :
    (s.updateLatency peerId latencyMs).peers.sum f = s.peers.sum f := by
  have hkey : ∀ p : PeerConnection, Keyed.key { p with latencyMs := latencyMs } = Keyed.key p :=
    fun _ => rfl
  refine (Table.sum_modify s.peers peerId hkey f).trans ?_
  cases s.peers.get? peerId <;> simp [hf]

theorem Balanced.exec (h : s.Balanced) (call : OverlayCall) : (s.exec call).Balanced := by
  cases call with
  | addPeer peerId endpoint protocol establishedAt lastActivity => exact h.addPeer rfl rfl
  | removePeer peerId => exact h.drop peerId
  | recordTraffic now peerId bytesSent bytesReceived =>
    exact h.recordTraffic now peerId bytesSent bytesReceived
  | updateLatency peerId latencyMs =>
    refine ⟨h.sent.trans ?_,h.received.trans ?_⟩
    · rw [← sum_updateLatency s peerId latencyMs fun _ => rfl]
      rfl
    · rw [← sum_updateLatency s peerId latencyMs fun _ => rfl]
      rfl
  | checkPeers ts =>
    have hcheck : ∀ p : PeerConnection,
        (p.check s.heartbeatInterval ts).bytesSent = p.bytesSent ∧
          (p.check s.heartbeatInterval ts).bytesReceived = p.bytesReceived := by
      intro p
      rw [PeerConnection.check]
      split_ifs <;> exact ⟨rfl,rfl⟩
    have hkey := fun p : PeerConnection => p.key_check s.heartbeatInterval ts
    refine ⟨h.sent.trans ?_,h.received.trans ?_⟩
    · rw [← Table.sum_mapped s.peers hkey fun p => (hcheck p).1]
      rfl
    · rw [← Table.sum_mapped s.peers hkey fun p => (hcheck p).2]
      rfl
  | stop =>
    refine ⟨h.sent.trans ?_,h.received.trans ?_⟩
    · rw [← Table.sum_mapped s.peers PeerConnection.key_disconnect fun _ => rfl]
      rfl
    · rw [← Table.sum_mapped s.peers PeerConnection.key_disconnect fun _ => rfl]
      rfl

/-- There is room for as many peers as are allowed, and for one at least. -/
def Fits (s : OverlayNetwork) : Prop := (s.peers.entries.length : ℤ) ≤ max 1 s.maxConnections

theorem length_modify_peers (s : OverlayNetwork) (peerId : String)
    {f : PeerConnection → PeerConnection} (hf : ∀ p, (f p).peerId = p.peerId) :
    (s.peers.modify peerId f).entries.length = s.peers.entries.length := by
  cases hget : s.peers.get? peerId with
  | none => simp only [Table.modify, hget]
  | some p =>
    have hp : p.peerId = peerId := Table.key_of_get? hget
    have hkey : Keyed.key (f p) = peerId := (hf p).trans hp
    simp only [Table.modify, hget, Table.length_put, hkey, Option.isSome_some, if_true, add_zero]

/-- The eviction makes room for the new peer. -/
theorem Fits.addPeer (h : s.Fits) (conn : PeerConnection) : (s.addPeer conn).Fits := by
  have hroom : ((if s.Full then s.evictIdlePeer else s).peers.entries.length : ℤ)+1 ≤
      max 1 s.maxConnections := by
    unfold Fits at h
    split_ifs with hfull
    · unfold evictIdlePeer
      cases hidle : s.idlePeer with
      | none =>
        rw [List.argmin_eq_none.mp hidle]
        simp
      | some p =>
        have hlen := Table.length_erase_of_some (Table.get?_of_mem (idlePeer_spec hidle).1)
        change ((s.peers.erase p.peerId).entries.length : ℤ)+1 ≤ _
        change (s.peers.erase p.peerId).entries.length+1 = _ at hlen
        omega
    · unfold Full at hfull
      omega
  have hput := Table.length_put (if s.Full then s.evictIdlePeer else s).peers conn
  have hmax : (s.addPeer conn).maxConnections = s.maxConnections :=
    (limits_exec s (.addPeer conn.peerId conn.endpoint conn.protocol 0 0)).1
  rw [Fits, hmax]
  change (((if s.Full then s.evictIdlePeer else s).peers.put conn).entries.length : ℤ) ≤ _
  generalize (if s.Full then s.evictIdlePeer else s).peers = peers at hroom hput
  split_ifs at hput <;> omega

theorem Fits.exec (h : s.Fits) (call : OverlayCall) : (s.exec call).Fits := by
  cases call with
  | addPeer peerId endpoint protocol establishedAt lastActivity => exact h.addPeer _
  | removePeer peerId =>
    exact (Int.ofNat_le.mpr (List.length_filter_le _ _)).trans h
  | recordTraffic now peerId bytesSent bytesReceived =>
    simp only [OverlayNetwork.exec, recordTraffic]
    cases s.peers.get? peerId with
    | none => exact h
    | some p =>
      refine le_of_eq_of_le (congrArg Nat.cast ?_) h
      exact length_modify_peers s peerId fun _ => rfl
  | updateLatency peerId latencyMs =>
    refine le_of_eq_of_le (congrArg Nat.cast ?_) h
    exact length_modify_peers s peerId fun _ => rfl
  | checkPeers ts =>
    refine le_of_eq_of_le (congrArg Nat.cast ?_) h
    exact List.length_map _
  | stop =>
    refine le_of_eq_of_le (congrArg Nat.cast ?_) h
    exact List.length_map _

/-- The call neither takes the peer away nor connects it anew. -/
def Keeps (id : String) (s : OverlayNetwork) (call : OverlayCall) : Prop :=
  s.lost? call ≠ some id ∧ ∀ c ∈ call.added?, c.peerId ≠ id

theorem get?_exec_eq_some_iff {heartbeatInterval : ℚ} (s : OverlayNetwork) (call : OverlayCall)
    (c : PeerConnection) (id : String) (hs : s.heartbeatInterval = heartbeatInterval) :
    (s.exec call).peers.get? id = some c ↔
      (call.added?.filter fun c => c.peerId = id) = some c ∨ Keeps id s call ∧
        ∃ p, s.peers.get? id = some p ∧ OverlayCall.apply heartbeatInterval p call = c := by
  have hnone : (call.added?.filter fun c => c.peerId = id) = none ↔
      ∀ c ∈ call.added?, c.peerId ≠ id := by
    simp [Option.filter_eq_none_iff]
  rw [get?_exec, Option.or_eq_some_iff, hnone, hs, Keeps]
  refine or_congr Iff.rfl ?_
  by_cases hlost : s.lost? call = some id <;> simp [hlost]

/-- The call disconnects the peer. -/
def Disconnects (heartbeatInterval : ℚ) (p : PeerConnection) : OverlayCall → Prop
  | .checkPeers ts => p.TimedOut heartbeatInterval ts
  | .stop => True
  | _ => False

/-- Nothing that happens to a connection connects it again. -/
theorem connected_apply_iff (heartbeatInterval : ℚ) (p : PeerConnection) (call : OverlayCall) :
    (OverlayCall.apply heartbeatInterval p call).connected ↔
      p.connected ∧ ¬ Disconnects heartbeatInterval p call := by
  cases call with
  | addPeer peerId endpoint protocol establishedAt lastActivity =>
    simp [OverlayCall.apply, Disconnects]
  | removePeer peerId => simp [OverlayCall.apply, Disconnects]
  | recordTraffic now peerId bytesSent bytesReceived =>
    simp only [OverlayCall.apply, Disconnects]
    split_ifs <;> simp [PeerConnection.carry]
  | updateLatency peerId latencyMs =>
    simp only [OverlayCall.apply, Disconnects]
    split_ifs <;> simp
  | checkPeers ts =>
    simp only [OverlayCall.apply, Disconnects, PeerConnection.check]
    split_ifs with h <;> simp_all [PeerConnection.disconnect]
  | stop => simp [OverlayCall.apply, Disconnects, PeerConnection.disconnect]

/-- A connection is up as long as no call has disconnected it. -/
theorem connected_run_iff (heartbeatInterval : ℚ) (p : PeerConnection) (calls : List OverlayCall) :
    (run (OverlayCall.apply heartbeatInterval) p calls).connected ↔ p.connected ∧
      Along (OverlayCall.apply heartbeatInterval)
        (fun p call => ¬ Disconnects heartbeatInterval p call) p calls := by
  induction calls generalizing p with
  | nil => simp
  | cons call calls ih => rw [run_cons, ih, connected_apply_iff, along_cons, and_assoc]

/-- The network after some calls. -/
def reach (maxConnections : ℤ) (heartbeatInterval : ℚ) (calls : List OverlayCall) :
    OverlayNetwork :=
  run exec { maxConnections := maxConnections, heartbeatInterval := heartbeatInterval } calls

theorem connection_tracked (maxConnections : ℤ) (heartbeatInterval : ℚ)
    (calls : List OverlayCall) (id : String) (c : PeerConnection) :
    (reach maxConnections heartbeatInterval calls).peers.get? id = some c ↔
      ∃ p call q, calls = p ++ call :: q ∧ ∃ c₀,
        (call.added?.filter fun c => c.peerId = id) = some c₀ ∧
        Along exec (Keeps id) (reach maxConnections heartbeatInterval (p ++ [call])) q ∧
        run (OverlayCall.apply heartbeatInterval) c₀ q = c :=
  tracked_iff (v := fun s : OverlayNetwork => s.peers.get? id)
    (I := fun s : OverlayNetwork => s.heartbeatInterval = heartbeatInterval)
    (fun s call hs => (limits_exec s call).2.trans hs)
    (fun s call c hs => get?_exec_eq_some_iff s call c id hs) rfl rfl calls c

theorem connected_added {call : OverlayCall} {id : String} {c : PeerConnection}
    (h : (call.added?.filter fun c => c.peerId = id) = some c) : c.connected = true := by
  have hadded := (Option.filter_eq_some_iff.mp h).1
  cases call <;> cases hadded
  rfl

end OverlayNetwork

open OverlayNetwork

/-- After every run of calls, the peers are those that were added and neither removed, added anew
nor pushed out since, each with what the calls since then have made of its connection; it is up
unless one of them found it idle for three heartbeats or stopped the network. There are no more
peers than allowed, and what was carried is what the connections have carried, with those that are
gone. -/
theorem peers_after (maxConnections : ℤ) (heartbeatInterval : ℚ) (calls : List OverlayCall) :
    (∀ id c, (reach maxConnections heartbeatInterval calls).peers.get? id = some c ↔
      ∃ p call q, calls = p ++ call :: q ∧ ∃ c₀,
        (call.added?.filter fun c => c.peerId = id) = some c₀ ∧
        Along exec (Keeps id) (reach maxConnections heartbeatInterval (p ++ [call])) q ∧
        run (OverlayCall.apply heartbeatInterval) c₀ q = c ∧
        (c.connected ↔ Along (OverlayCall.apply heartbeatInterval)
          (fun c call => ¬ Disconnects heartbeatInterval c call) c₀ q)) ∧
    (reach maxConnections heartbeatInterval calls).Balanced ∧
    ((reach maxConnections heartbeatInterval calls).peers.entries.length : ℤ) ≤
      max 1 maxConnections := by
  have hlimits : (reach maxConnections heartbeatInterval calls).maxConnections = maxConnections :=
    run_always (I := fun s : OverlayNetwork => s.maxConnections = maxConnections)
      (fun s call hs => (limits_exec s call).1.trans hs) rfl calls
  have hfits : (reach maxConnections heartbeatInterval calls).Fits :=
    run_always (I := Fits) (fun s call hs => hs.exec call) (le_max_of_le_left zero_le_one) calls
  refine ⟨fun id c => ?_,
    run_always (I := Balanced) (fun s call hs => hs.exec call) ⟨rfl,rfl⟩ calls,?_⟩
  · refine (connection_tracked maxConnections heartbeatInterval calls id c).trans ?_
    refine exists_congr fun p => exists_congr fun call => exists_congr fun q => ?_
    refine and_congr_right fun _ => exists_congr fun c₀ => and_congr_right fun hadded => ?_
    refine and_congr_right fun _ => (and_iff_left_of_imp ?_).symm
    rintro rfl
    rw [connected_run_iff, and_iff_right (connected_added hadded)]
  · rw [Fits, hlimits] at hfits
    exact hfits

end Arsonist.Networking
