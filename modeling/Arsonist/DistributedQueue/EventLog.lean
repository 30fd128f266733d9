import Arsonist.Library.JsonText
import Arsonist.Mesh.MeshProtocol

/-! The mesh event stream (`distributed_queue/event_log.py`) and the serialised form in which
its events travel (`distributed_queue/queue_sync.py`, without compression). -/
namespace Arsonist.DistributedQueue
open Arsonist.Library Arsonist.Mesh Json

abbrev EventId := String

structure MeshEvent where
  eventId : EventId
  seq : ℕ := 0
  ts : ℚ := 0
  eventType : String
  payload : Json.Object := []
  sourceClusterId : ClusterId := ""

def MeshEvent.modelDump (e : MeshEvent) : Json.Object :=
  [("event_id",str e.eventId),
   ("seq",int e.seq),
   ("ts",float e.ts),
   ("event_type",str e.eventType),
   ("payload",obj e.payload),
   ("source_cluster_id",str e.sourceClusterId)]

/-- A row of `mesh_events`. The payload is JSON text. -/
structure EventRow where
  seq : ℕ
  eventId : EventId
  ts : ℚ
  eventType : String
  payload : String
  sourceClusterId : ClusterId

/-- The event of a row: `none` if its payload is no JSON object. -/
def EventRow.event (r : EventRow) : Option MeshEvent := do
  let payload ← (decode r.payload).bind asObject
  some { eventId := r.eventId, seq := r.seq, ts := r.ts, eventType := r.eventType
         payload := payload, sourceClusterId := r.sourceClusterId }

/-- The table `mesh_events`, ordered by `seq`. -/
structure EventLog where
  rows : List EventRow
  increasing : rows.Pairwise fun r r' => r.seq < r'.seq
  unique : (rows.map EventRow.eventId).Nodup

namespace EventLog

def empty : EventLog := ⟨[],List.Pairwise.nil,List.nodup_nil⟩

def ids (log : EventLog) : List EventId := log.rows.map EventRow.eventId

/-- `last_seq`. -/
def lastSeq (log : EventLog) : ℕ := (log.rows.getLast?.map EventRow.seq).getD 0

theorem seq_le_lastSeq {log : EventLog} {r : EventRow} (h : r ∈ log.rows) :
    r.seq ≤ log.lastSeq := by
  obtain ⟨rows,hinc,_⟩ := log
  change r ∈ rows at h
  change r.seq ≤ (rows.getLast?.map EventRow.seq).getD 0
  obtain rfl | ⟨first,last,rfl⟩ := List.eq_nil_or_concat rows
  · simp at h
  · rw [List.concat_eq_append] at h hinc ⊢
    rw [List.getLast?_concat, Option.map_some, Option.getD_some]
    obtain h | h := List.mem_append.mp h
    · exact ((List.pairwise_append.mp hinc).2.2 r h last List.mem_cons_self).le
    · rw [List.mem_singleton.mp h]

/-- `INSERT INTO mesh_events`: the row gets the next number. `none` is an `IntegrityError`. -/
def insert (log : EventLog) (eventId : EventId) (ts : ℚ) (eventType payload : String)
    (sourceClusterId : ClusterId) : Option EventLog :=
  if h : eventId ∈ log.ids then none
  else some {
    rows := log.rows ++ [⟨log.lastSeq+1,eventId,ts,eventType,payload,sourceClusterId⟩]
    increasing := by
      refine List.pairwise_append.mpr ⟨log.increasing,List.pairwise_singleton _ _,?_⟩
      intro r hr r' hr'
      rw [List.mem_singleton.mp hr']
      exact Nat.lt_succ_of_le (seq_le_lastSeq hr)
    unique := by
      rw [List.map_append, List.map_singleton]
      exact List.concat_eq_append ▸ log.unique.concat h }

/-- `append`, with the fresh id and the time that the event is given. -/
def append (log : EventLog) (eventType : String) (payload : Json.Object)
    (sourceClusterId : ClusterId) (eventId : EventId) (now : ℚ) : Option (EventLog × MeshEvent) :=
  (log.insert eventId now eventType (encode (obj payload)) sourceClusterId).map fun log' =>
    (log',{ eventId := eventId, seq := log'.lastSeq, ts := now, eventType := eventType
            payload := payload, sourceClusterId := sourceClusterId })

/-- The rows that `LIMIT` leaves. A negative limit is none. -/
def limited (limit : ℤ) (rows : List EventRow) : List EventRow :=
  if limit < 0 then rows else rows.take limit.toNat

/-- `replay`. -/
def replay (log : EventLog) (sinceSeq limit : ℤ) : Option (List MeshEvent) :=
  (limited limit (log.rows.filter fun r => sinceSeq < r.seq)).mapM EventRow.event

/-- One element of the array given to `merge_events`: the log, and how many events were inserted.
`none` is an exception other than an `IntegrityError`. -/
def mergeEvent (now : ℚ) (s : EventLog × ℕ) (e : Json) : Option (EventLog × ℕ) := do
  let e ← asObject e
  let eventId := (e.lookup "event_id").getD null
  let eventId := toText (if eventId.truthy then eventId else str "")
  if eventId = "" then some s
  else
    let ts ← toFloat ((e.lookup "ts").getD (float now))
    let payload := (e.lookup "payload").getD null
    match s.1.insert eventId ts (toText ((e.lookup "event_type").getD (str "UNKNOWN")))
        (encode (if payload.truthy then payload else obj []))
        (toText ((e.lookup "source_cluster_id").getD (str ""))) with
    | some log => some (log,s.2+1)
    | none => some s

/-- `merge_events`. An exception closes the connection before the commit. -/
def mergeEvents (log : EventLog) (now : ℚ) (events : List Json) : Option (EventLog × ℕ) :=
  events.foldlM (mergeEvent now) (log,0)

end EventLog

/-- `serialize_events`. -/
def serializeEvents (events : List MeshEvent) : String :=
  encodeCompact (arr (events.map fun e => obj e.modelDump))

/-- `deserialize_events`. -/
def deserializeEvents (body : String) : Option (List Json) :=
  (decode body).map fun data =>
    match data with
    | arr events => events
    | _ => []

end Arsonist.DistributedQueue
