import Arsonist.DistributedQueue.EventLog
import Arsonist.Library.Floats
import Arsonist.Library.Transactions

/-! The table `mesh_events` with all that its columns can hold, and the transactions in which
`distributed_queue/event_log.py` writes it. What JSON values there are, and how Python reads and
writes them, is left open. -/
namespace Arsonist.DistributedQueue
open Arsonist.Library Arsonist.Mesh

/-- JSON values as Python works with them. `none` is an exception. -/
structure PyJson (J : Type*) where
  /-- The values of an object, by name: `none` if there is no `get`. -/
  get : J → Option (String → Option J)
  emptyObject : J
  truthy : J → Bool
  /-- `str`, for a text that the database takes: one that UTF-8 can encode. -/
  text : J → Option String
  float : J → Option PyFloat
  dumps : J → Option String
  loads : String → Option J

/-- An event as it is given to the table. -/
structure NewEvent where
  eventId : EventId
  ts : PyFloat
  eventType : String
  payload : String
  sourceClusterId : ClusterId

/-- A row of `mesh_events`. -/
structure StoredEvent extends NewEvent where
  seq : ℕ

/-- A `MeshEvent`. -/
structure ReplayedEvent (J : Type*) where
  eventId : EventId
  seq : ℕ
  ts : PyFloat
  eventType : String
  payload : J
  sourceClusterId : ClusterId

/-- The table, ordered by `seq`. -/
structure EventTable where
  rows : List StoredEvent
  increasing : rows.Pairwise fun r r' => r.seq < r'.seq
  unique : (rows.map fun r => r.eventId).Nodup

namespace EventTable

def empty : EventTable := ⟨[],List.Pairwise.nil,List.nodup_nil⟩

def ids (log : EventTable) : List EventId := log.rows.map fun r => r.eventId

/-- `last_seq`. -/
def lastSeq (log : EventTable) : ℕ := (log.rows.getLast?.map StoredEvent.seq).getD 0

theorem seq_le_lastSeq {log : EventTable} {r : StoredEvent} (h : r ∈ log.rows) :
    r.seq ≤ log.lastSeq := by
  obtain ⟨rows,hinc,_⟩ := log
  change r ∈ rows at h
  change r.seq ≤ (rows.getLast?.map StoredEvent.seq).getD 0
  cases rows using List.reverseRecOn with
  | nil => cases h
  | append_singleton rows last =>
    rw [List.getLast?_concat, Option.map_some, Option.getD_some]
    obtain h | h := List.mem_append.mp h
    · exact ((List.pairwise_append.mp hinc).2.2 r h last List.mem_cons_self).le
    · rw [List.mem_singleton.mp h]

/-- `INSERT INTO mesh_events`: the row gets a new number, which is the next one unless a failed
insert has used some up. `none` is an `IntegrityError`: the id is there already, or the time is
no number, which the driver stores as `NULL`. -/
def insert (gap : ℕ) (ev : NewEvent) (log : EventTable) : Option EventTable :=
  if ev.ts = .nan then none
  else if h : ev.eventId ∈ log.ids then none
  else some {
    rows := log.rows ++ [{ ev with seq := log.lastSeq+1+gap }]
    increasing := by
      refine List.pairwise_append.mpr ⟨log.increasing,List.pairwise_singleton _ _,?_⟩
      intro r hr r' hr'
      rw [List.mem_singleton.mp hr']
      exact Nat.lt_of_le_of_lt (seq_le_lastSeq hr)
        (Nat.lt_of_lt_of_le (Nat.lt_succ_self _) (Nat.le_add_right _ gap))
    unique := by
      rw [List.map_append, List.map_singleton]
      exact List.concat_eq_append ▸ log.unique.concat h }

end EventTable

namespace PyJson
variable {J : Type*} (py : PyJson J)

/-- `str(e.get(name, default))`. -/
def textAt (get : String → Option J) (name default : String) : Option String :=
  match get name with
  | none => some default
  | some v => py.text v

/-- `str(e.get("event_id") or "")`. -/
def idOf (get : String → Option J) : Option EventId :=
  if (get "event_id").any py.truthy then py.textAt get "event_id" "" else some ""

/-- `float(e.get("ts", now_ts()))`. -/
def tsOf (now : ℚ) (get : String → Option J) : Option PyFloat :=
  match get "ts" with
  | none => some (.number now)
  | some v => py.float v

/-- What `merge_events` inserts for an element: `some none` if it passes over the element. -/
def newEvent (now : ℚ) (e : J) : Option (Option NewEvent) :=
  (py.get e).bind fun get => do
    let eventId ← py.idOf get
    if eventId = "" then some none
    else
      let ts ← py.tsOf now get
      let eventType ← py.textAt get "event_type" "UNKNOWN"
      let payload ← py.dumps (((get "payload").filter py.truthy).getD py.emptyObject)
      let sourceClusterId ← py.textAt get "source_cluster_id" ""
      some (some ⟨eventId,ts,eventType,payload,sourceClusterId⟩)

/-- The `MeshEvent` of a row: `none` if its payload is no JSON object. -/
def event (r : StoredEvent) : Option (ReplayedEvent J) := do
  let payload ← py.loads r.payload
  if (py.get payload).isSome then
    some { eventId := r.eventId, seq := r.seq, ts := r.ts, eventType := r.eventType
           payload := payload, sourceClusterId := r.sourceClusterId }
  else none

theorem seq_event {r : StoredEvent} {m : ReplayedEvent J} (h : py.event r = some m) :
    m.seq = r.seq ∧ m.eventId = r.eventId := by
  rw [event, Option.bind_eq_bind, Option.bind_eq_some_iff] at h
  obtain ⟨payload,_,h⟩ := h
  split at h
  · obtain rfl := Option.some.inj h
    exact ⟨rfl,rfl⟩
  · cases h

end PyJson

/-- An element of the array given to `merge_events`, with what the loop meets at its turn. -/
structure Arrival (J : Type*) where
  element : J
  now : ℚ := 0
  gap : ℕ := 0
  /-- The insert fails with another error than an `IntegrityError`. -/
  fails : Bool := false

namespace EventTable
variable {J : Type*} (py : PyJson J)

/-- `append`, with the id and the time that the event is given. -/
def append (now : ℚ) (gap : ℕ) (eventId : EventId) (eventType : String) (payload : J)
    (sourceClusterId : ClusterId) (log : EventTable) : EventTable × Option (ReplayedEvent J) :=
  match if (py.get payload).isSome then py.dumps payload else none with
  | none => (log,none)
  | some text =>
    match ({ stored := log } : Connection EventTable).execute
        (insert gap ⟨eventId,.number now,eventType,text,sourceClusterId⟩) with
    | (conn,false) => (conn.close,none)
    | (conn,true) =>
      (conn.commit.close,
        some { eventId := eventId, seq := conn.current.lastSeq, ts := .number now
               eventType := eventType, payload := payload, sourceClusterId := sourceClusterId })

/-- The loop of `merge_events` with the number of events inserted so far. An exception leaves the
connection as it is. -/
def mergeLoop (conn : Connection EventTable) (inserted : ℕ) :
    List (Arrival J) → Connection EventTable × Option ℕ
  | [] => (conn,some inserted)
  | a :: arrivals =>
    match py.newEvent a.now a.element with
    | none => (conn,none)
    | some none => mergeLoop conn inserted arrivals
    | some (some ev) =>
      if a.fails then (conn,none)
      else
        match conn.execute (insert a.gap ev) with
        | (conn,true) => mergeLoop conn (inserted+1) arrivals
        | (conn,false) => mergeLoop conn inserted arrivals

/-- `merge_events`. The commit may fail too. -/
def mergeEvents (commits : Bool) (arrivals : List (Arrival J)) (log : EventTable) :
    EventTable × Option ℕ :=
  match mergeLoop py { stored := log } 0 arrivals with
  | (conn,none) => (conn.close,none)
  | (conn,some inserted) =>
    if commits then (conn.commit.close,some inserted) else (conn.close,none)

/-- A number that the driver can bind. -/
def Bindable (n : ℤ) : Prop := -2^63 ≤ n ∧ n < 2^63

instance (n : ℤ) : Decidable (Bindable n) := inferInstanceAs (Decidable (_ ∧ _))

/-- The rows that `replay` reads. A negative limit is none. -/
def page (sinceSeq limit : ℤ) (log : EventTable) : List StoredEvent :=
  let rows := log.rows.filter fun r => sinceSeq < r.seq
  if limit < 0 then rows else rows.take limit.toNat

/-- `replay`. -/
def replay (sinceSeq limit : ℤ) (log : EventTable) : Option (List (ReplayedEvent J)) :=
  if Bindable sinceSeq ∧ Bindable limit then (log.page sinceSeq limit).mapM py.event else none

end EventTable
end Arsonist.DistributedQueue
