import Arsonist.Library.JsonText
import Arsonist.Library.Keyed
import Arsonist.Library.Runs
import Mathlib.Data.List.MinMax

/-! The runtime of `edge/edge_runtime.py`: a cache with two tiers, and an outbox of what is to be
told to the region, which is flushed in batches. -/
namespace Arsonist.Edge
open Arsonist.Library

inductive EdgeNodeState | online | offline | syncing | degraded
  deriving DecidableEq, Repr

/-- An entry of the map in memory. -/
structure CacheEntry where
  key : String
  data : Json
  accessedAt : ℚ
  accessCount : ℕ

instance : Keyed CacheEntry String := ⟨CacheEntry.key⟩

@[simp] theorem CacheEntry.key_eq (entry : CacheEntry) : Keyed.key entry = entry.key := rfl

/-- A row of `edge_cache`. -/
structure CacheRow where
  cacheKey : String
  payload : String
  createdAt : ℚ
  accessedAt : ℚ
  accessCount : ℕ := 0

instance : Keyed CacheRow String := ⟨CacheRow.cacheKey⟩

@[simp] theorem CacheRow.key_eq (row : CacheRow) : Keyed.key row = row.cacheKey := rfl

/-- The row after one more access. -/
def CacheRow.accessed (now : ℚ) (row : CacheRow) : CacheRow :=
  { row with accessedAt := now, accessCount := row.accessCount+1 }

/-- A row of `edge_outbox`. -/
structure OutboxRow where
  id : ℕ
  payload : String
  createdAt : ℚ
  synced : Bool := false
  deriving DecidableEq

structure EdgeRuntime where
  nodeId : String
  regionId : String
  cacheMaxEntries : ℕ := 1000
  /-- A callback was given. -/
  onSync : Bool := false
  state : EdgeNodeState := .online
  connected : Bool := true
  localCache : Table CacheEntry := .empty
  edgeCache : Table CacheRow := .empty
  edgeOutbox : List OutboxRow := []
  requestsServed : ℕ := 0
  cacheHits : ℕ := 0
  cacheMisses : ℕ := 0
  offlineRequests : ℕ := 0

namespace EdgeRuntime
variable (s : EdgeRuntime)

/-- The map without the entry that was accessed first, once it has grown too large. -/
def evict (maxEntries : ℕ) (cache : Table CacheEntry) : Table CacheEntry :=
  if maxEntries < cache.entries.length then
    match cache.entries.argmin CacheEntry.accessedAt with
    | some oldest => cache.erase oldest.key
    | none => cache
  else cache

def putCache (now : ℚ) (key : String) (data : Json) : EdgeRuntime :=
  { s with
    localCache := evict s.cacheMaxEntries (s.localCache.put ⟨key,data,now,0⟩)
    edgeCache := s.edgeCache.replace ⟨key,data.encode,now,now,0⟩ }

/-- The text of what was read is kept in memory from then on. An error stands for a row that is no
JSON. -/
def getCache (now : ℚ) (key : String) : EdgeRuntime × Except Unit (Option Json) :=
  match s.localCache.get? key with
  | some entry =>
    let entry := { entry with accessedAt := now, accessCount := entry.accessCount+1 }
    ({ s with localCache := s.localCache.put entry },.ok (some entry.data))
  | none =>
    match s.edgeCache.get? key with
    | none => (s,.ok none)
    | some row =>
      match Json.decode row.payload with
      | none => (s,.error ())
      | some data =>
        ({ s with
            edgeCache := s.edgeCache.modify key (CacheRow.accessed now)
            localCache := s.localCache.put ⟨key,data,now,1⟩ },.ok (some data))

/-- What is found is returned if Python takes it for true. -/
def handleRequest (now : ℚ) (requestKey : String) : EdgeRuntime × Except Unit (Option Json) :=
  let (s,cached) := { s with requestsServed := s.requestsServed+1 }.getCache now requestKey
  match cached with
  | .error () => (s,.error ())
  | .ok cached =>
    if cached.any Json.truthy then ({ s with cacheHits := s.cacheHits+1 },.ok cached)
    else
      let s := { s with cacheMisses := s.cacheMisses+1 }
      (if s.connected then s else { s with offlineRequests := s.offlineRequests+1 },.ok none)

/-- What is told to the region about a result. -/
def outboxPayload (nodeId requestKey : String) (ts : ℚ) : Json :=
  .obj [("type",.str "inference_result"),("node_id",.str nodeId),
    ("request_key",.str requestKey),("ts",.float ts)]

/-- Rows are never deleted, so that the next number is one more than there are rows. -/
def enqueueOutbox (now : ℚ) (payload : Json) : EdgeRuntime :=
  { s with edgeOutbox := s.edgeOutbox ++ [⟨s.edgeOutbox.length+1,payload.encode,now,false⟩] }

def storeResult (now : ℚ) (requestKey : String) (result : Json.Object) : EdgeRuntime :=
  (s.putCache now requestKey (.obj result)).enqueueOutbox now
    (outboxPayload s.nodeId requestKey now)

def setConnected (connected : Bool) : EdgeRuntime :=
  if connected && !s.connected then { s with connected := connected, state := .syncing }
  else if !connected && s.connected then { s with connected := connected, state := .offline }
  else { s with connected := connected }

/-- The batch that a flush selects. -/
def batch : List OutboxRow := (s.edgeOutbox.filter fun row => !row.synced).take 100

/-- The end of the synchronisation. -/
def settled (state : EdgeNodeState) : EdgeNodeState :=
  if state = .syncing then .online else state

/-- One flush, and the payloads of a call to the callback that succeeded. The flag says whether the
callback raises. -/
def flushOutbox (raises : Bool) : EdgeRuntime × Option (List Json) :=
  let rows := s.batch
  if rows.isEmpty then ({ s with state := settled s.state },none)
  else
    match rows.mapM fun row => Json.decode row.payload with
    | none => (s,none)
    | some entries =>
      if s.onSync && raises then (s,none)
      else
        let outbox := s.edgeOutbox.map fun row =>
          if row.id ∈ rows.map OutboxRow.id then { row with synced := true } else row
        let state := if outbox.all OutboxRow.synced then settled s.state else s.state
        ({ s with edgeOutbox := outbox, state := state },
          if s.onSync then some entries else none)

end EdgeRuntime

/-- A step of a runtime. -/
inductive EdgeEvent
  | storeResult (now : Json.Decimal) (requestKey : String) (result : Json.Document)
  | handleRequest (now : Json.Decimal) (requestKey : String)
  | setConnected (connected : Bool)
  | flushOutbox (raises : Bool)

namespace EdgeRuntime

def exec (s : EdgeRuntime) : EdgeEvent → EdgeRuntime
  | .storeResult now requestKey result => s.storeResult now requestKey result
  | .handleRequest now requestKey => (s.handleRequest now requestKey).1
  | .setConnected connected => s.setConnected connected
  | .flushOutbox raises => (s.flushOutbox raises).1

end EdgeRuntime
end Arsonist.Edge
