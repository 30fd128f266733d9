import Arsonist.DistributedQueue.EventLog
import Arsonist.Library.Keyed
import Arsonist.Library.Runs

/-! What becomes of the event logs of a mesh that exchange events in any way. The events of each
log are a part of one history, which only grows. -/
namespace Arsonist.DistributedQueue
open Arsonist.Library Arsonist.Mesh Json

/-- A row without its number, which every log gives on its own. -/
def EventRow.unnumbered (r : EventRow) : EventRow := { r with seq := 0 }

instance : Keyed EventRow EventId := ⟨fun r => r.eventId⟩

@[simp] theorem EventRow.key_eq (r : EventRow) : Keyed.key r = r.eventId := rfl

/-- The row that an event makes, unnumbered. -/
def MeshEvent.row (e : MeshEvent) : EventRow where
  seq := 0
  eventId := e.eventId
  ts := e.ts
  eventType := e.eventType
  payload := encode (obj e.payload)
  sourceClusterId := e.sourceClusterId

/-- An event that keeps its contents on the way: it has an id and is made of JSON values. -/
structure MeshEvent.Sound (e : MeshEvent) : Prop where
  named : e.eventId ≠ ""
  decimal : IsDecimal e.ts
  document : wellFormed (obj e.payload)

theorem MeshEvent.Sound.wellFormed {e : MeshEvent} (h : e.Sound) :
    wellFormed (obj e.modelDump) := by
  have hnames : (e.modelDump.map Prod.fst).Nodup := by
    simp [MeshEvent.modelDump]
  rw [Json.wellFormed, Bool.and_eq_true, decide_eq_true_iff]
  refine ⟨hnames,?_⟩
  simp only [MeshEvent.modelDump, membersWellFormed, Bool.and_true, Bool.and_eq_true]
  exact ⟨rfl,rfl,decide_eq_true h.decimal,rfl,h.document,rfl⟩

/-- Events arrive as they were sent. -/
theorem deserializeEvents_serialize {events : List MeshEvent} (h : ∀ e ∈ events, e.Sound) :
    deserializeEvents (serializeEvents events) =
      some (events.map fun e => obj e.modelDump) := by
  have hitems : itemsWellFormed (events.map fun e => obj e.modelDump) := by
    induction events with
    | nil => rfl
    | cons e events ih =>
      rw [List.map_cons, itemsWellFormed, Bool.and_eq_true]
      exact ⟨(h e List.mem_cons_self).wellFormed,ih fun d hd => h d (List.mem_cons_of_mem e hd)⟩
  have harr : wellFormed (arr (events.map fun e => obj e.modelDump)) := hitems
  rw [deserializeEvents, serializeEvents, decode_encodeCompact harr]
  rfl

/-- A row that a sound event has made is read as that event. -/
theorem EventRow.event_of_row {r : EventRow} {e : MeshEvent} (he : e.Sound)
    (hrow : e.row = r.unnumbered) : r.event = some { e with seq := r.seq } := by
  obtain ⟨seq,id,ts,type,payload,source⟩ := r
  simp only [MeshEvent.row, EventRow.unnumbered, EventRow.mk.injEq, true_and] at hrow
  obtain ⟨rfl,rfl,rfl,rfl,rfl⟩ := hrow
  simp [EventRow.event, decode_encode he.document]

namespace EventLog
variable {log log' : EventLog}

/-- The rows without their numbers. -/
def contents (log : EventLog) : Table EventRow where
  entries := log.rows.map EventRow.unnumbered
  nodup := by
    rw [List.map_map]
    exact log.unique

theorem keys_contents (log : EventLog) : log.contents.entries.map Keyed.key = log.ids := by
  rw [contents, List.map_map]
  rfl

theorem insert_of_mem {e : MeshEvent} (h : e.eventId ∈ log.ids) :
    log.insert e.eventId e.ts e.eventType (encode (obj e.payload)) e.sourceClusterId = none :=
  dif_pos h

theorem insert_of_not_mem {e : MeshEvent} (h : e.eventId ∉ log.ids) :
    ∃ log', log.insert e.eventId e.ts e.eventType (encode (obj e.payload)) e.sourceClusterId =
      some log' ∧ log'.ids = log.ids ++ [e.eventId] ∧ log'.contents = log.contents.put e.row := by
  refine ⟨_,dif_neg h,?_,?_⟩
  · rw [ids, List.map_append]
    rfl
  · apply Table.ext
    rw [Table.entries_put_of_not_mem (by rw [keys_contents]; exact h)]
    change (log.rows ++ [_]).map EventRow.unnumbered = log.rows.map EventRow.unnumbered ++ [e.row]
    rw [List.map_append]
    rfl

/-- The log after an event arrived, and how many were inserted before and by it. -/
def receive (s : EventLog × ℕ) (e : MeshEvent) : EventLog × ℕ :=
  match s.1.insert e.eventId e.ts e.eventType (encode (obj e.payload)) e.sourceClusterId with
  | some log => (log,s.2+1)
  | none => s

/-- The fields of a serialised event are what they were. -/
theorem mergeEvent_dump {e : MeshEvent} (he : e.Sound) (now : ℚ) (s : EventLog × ℕ) :
    mergeEvent now s (obj e.modelDump) = some (receive s e) := by
  have hid : (str e.eventId).truthy = true := by simpa [truthy] using he.named
  have hpayload : (if (obj e.payload).truthy then obj e.payload else obj []) = obj e.payload := by
    cases hp : e.payload with
    | nil => rfl
    | cons m members => rfl
  have hevent : e.modelDump.lookup "event_id" = some (str e.eventId) := rfl
  have hts : e.modelDump.lookup "ts" = some (float e.ts) := rfl
  have htype : e.modelDump.lookup "event_type" = some (str e.eventType) := rfl
  have hbody : e.modelDump.lookup "payload" = some (obj e.payload) := rfl
  have hsource : e.modelDump.lookup "source_cluster_id" = some (str e.sourceClusterId) := rfl
  simp only [mergeEvent, asObject_obj, Option.bind_eq_bind, Option.bind_some, hevent, hts, htype,
    hbody, hsource, Option.getD_some, hid, if_true, hpayload, toText, toFloat, if_neg he.named]
  rw [receive]
  cases s.1.insert e.eventId e.ts e.eventType (encode (obj e.payload)) e.sourceClusterId with
  | none => rfl
  | some log => rfl

/-- What a merge of `events` makes of a log. -/
structure Merges (log : EventLog) (events : List MeshEvent) (log' : EventLog) (n : ℕ) : Prop where
  union : ∀ id, id ∈ log'.ids ↔ id ∈ log.ids ∨ id ∈ events.map MeshEvent.eventId
  grown : log'.ids.length = log.ids.length+n
  known : (∀ e ∈ events, e.eventId ∈ log.ids) → log' = log ∧ n = 0
  part : ∀ {history : EventId → Option EventRow}, Part log.contents.get? history →
    (∀ e ∈ events, history e.eventId = some e.row) → Part log'.contents.get? history

theorem Merges.receive {events : List MeshEvent} {n : ℕ} (h : Merges log events log' n)
    (e : MeshEvent) : Merges log (events ++ [e]) (EventLog.receive (log',n) e).1
      (EventLog.receive (log',n) e).2 := by
  by_cases he : e.eventId ∈ log'.ids
  · have hreceive : EventLog.receive (log',n) e = (log',n) := by
      simp [EventLog.receive, insert_of_mem he]
    rw [hreceive]
    refine ⟨fun id => ?_,h.grown,fun hknown => ?_,fun hpart hhist => ?_⟩
    · rw [h.union, List.map_append, List.map_singleton, List.mem_append, List.mem_singleton]
      have hmem := (h.union e.eventId).mp he
      constructor
      · tauto
      · rintro (hid | hid | rfl) <;> tauto
    · exact h.known fun d hd => hknown d (List.mem_append_left _ hd)
    · exact h.part hpart fun d hd => hhist d (List.mem_append_left _ hd)
  · obtain ⟨log'',hinsert,hids,hcontents⟩ := insert_of_not_mem he
    have hreceive : EventLog.receive (log',n) e = (log'',n+1) := by
      simp [EventLog.receive, hinsert]
    rw [hreceive]
    refine ⟨fun id => ?_,?_,fun hknown => ?_,fun hpart hhist => ?_⟩
    · rw [hids, List.mem_append, h.union, List.map_append, List.mem_append, or_assoc]
      rfl
    · rw [hids, List.length_append, h.grown]
      rfl
    · exact absurd ((h.union _).mpr (Or.inl (hknown e (by simp)))) he
    · rw [hcontents]
      refine Table.part_put ?_ (hhist e (by simp))
      exact h.part hpart fun d hd => hhist d (List.mem_append_left _ hd)

theorem merges_nil (log : EventLog) : Merges log [] log 0 where
  union := by simp
  grown := rfl
  known _ := ⟨rfl,rfl⟩
  part h _ := h

/-- `merge_events` raises nothing on the dumps of events, and this is what it does. -/
theorem mergeEvents_dump (log : EventLog) (now : ℚ) {events : List MeshEvent}
    (h : ∀ e ∈ events, e.Sound) : ∃ log' n,
    log.mergeEvents now (events.map fun e => obj e.modelDump) = some (log',n) ∧
      Merges log events log' n := by
  rw [mergeEvents]
  induction events using List.reverseRecOn with
  | nil => exact ⟨log,0,rfl,merges_nil log⟩
  | append_singleton events e ih =>
    obtain ⟨log',n,hfold,hmerges⟩ := ih fun d hd => h d (List.mem_append_left _ hd)
    refine ⟨(receive (log',n) e).1,(receive (log',n) e).2,?_,hmerges.receive e⟩
    rw [List.map_append, List.foldlM_append, hfold]
    simp [mergeEvent_dump (h e (by simp)) now (log',n)]

end EventLog

/-- The logs, and the serialised batches that have been read from them. A batch may be merged
late, more than once, or never. -/
structure EventMesh (ι : Type*) where
  logs : ι → EventLog := fun _ => .empty
  batches : List String := []

/-- `batch` is the number of a batch, in the order in which they were read. -/
inductive EventOp (ι : Type*)
  | append (i : ι) (eventType : String) (payload : Document) (sourceClusterId : ClusterId)
      (eventId : EventId) (now : Decimal)
  | replay (i : ι) (sinceSeq limit : ℤ)
  | merge (j : ι) (batch : ℕ) (now : ℚ)

namespace EventMesh
variable {ι : Type*} [DecidableEq ι]

/-- `merge_events` of a batch at the log of `j`. -/
def mergeInto (s : EventMesh ι) (j : ι) (body : String) (now : ℚ) : Option (EventLog × ℕ) :=
  (deserializeEvents body).bind ((s.logs j).mergeEvents now)

def withLog (s : EventMesh ι) (i : ι) (log : EventLog) : EventMesh ι :=
  { s with logs := Function.update s.logs i log }

/-- An operation that raises changes nothing. -/
def exec (s : EventMesh ι) : EventOp ι → EventMesh ι
  | .append i eventType payload source eventId now =>
    match (s.logs i).append eventType payload.1 source eventId now.1 with
    | some (log,_) => s.withLog i log
    | none => s
  | .replay i sinceSeq limit =>
    match (s.logs i).replay sinceSeq limit with
    | some events => { s with batches := s.batches ++ [serializeEvents events] }
    | none => s
  | .merge j batch now =>
    match s.batches[batch]?.bind fun body => s.mergeInto j body now with
    | some (log,_) => s.withLog j log
    | none => s

/-- `append` draws an id that no log has seen. -/
def Fresh (s : EventMesh ι) : EventOp ι → Prop
  | .append _ _ _ _ eventId _ => eventId ≠ "" ∧ ∀ i, eventId ∉ (s.logs i).ids
  | _ => True

/-- Every log is a part of the history, and so is every batch under way. The history has
nothing else in it. -/
structure Sound (history : EventId → Option EventRow) (s : EventMesh ι) : Prop where
  rows : ∀ i, Part (s.logs i).contents.get? history
  batches : ∀ body ∈ s.batches, ∃ events, body = serializeEvents events ∧
    ∀ e ∈ events, e.Sound ∧ history e.eventId = some e.row
  made : ∀ id c, history id = some c → ∃ e : MeshEvent, e.Sound ∧ e.row = c
  logged : ∀ id c, history id = some c → ∃ i, id ∈ (s.logs i).ids

variable {s : EventMesh ι} {history : EventId → Option EventRow}

omit [DecidableEq ι] in
theorem sound_init : Sound (fun _ => none) ({} : EventMesh ι) where
  rows i id c h := by cases h
  batches body h := by cases h
  made id c h := by cases h
  logged id c h := by cases h

omit [DecidableEq ι] in
theorem Sound.of_row (h : s.Sound history) {i : ι} {r : EventRow} (hr : r ∈ (s.logs i).rows) :
    history r.eventId = some r.unnumbered ∧ ∃ e : MeshEvent, e.Sound ∧ e.row = r.unnumbered := by
  have hmem : r.unnumbered ∈ (s.logs i).contents.entries := List.mem_map_of_mem hr
  have hhist := h.rows i _ _ (Table.get?_of_mem hmem)
  exact ⟨hhist,h.made _ _ hhist⟩

omit [DecidableEq ι] in
/-- Nothing that is in a log keeps it from being replayed. -/
theorem Sound.replay (h : s.Sound history) (i : ι) (sinceSeq limit : ℤ) :
    ∃ events, (s.logs i).replay sinceSeq limit = some events ∧
      ∀ e ∈ events, e.Sound ∧ history e.eventId = some e.row := by
  have hread : ∀ rows : List EventRow, (∀ r ∈ rows, r ∈ (s.logs i).rows) → ∃ events,
      rows.mapM EventRow.event = some events ∧
      ∀ e ∈ events, e.Sound ∧ history e.eventId = some e.row := by
    intro rows hrows
    induction rows with
    | nil => exact ⟨[],rfl,by simp⟩
    | cons r rows ih =>
      obtain ⟨events,hevents,hsound⟩ := ih fun d hd => hrows d (List.mem_cons_of_mem r hd)
      obtain ⟨hhist,e,he,hrow⟩ := h.of_row (hrows r List.mem_cons_self)
      have hid : e.eventId = r.eventId := congrArg EventRow.eventId hrow
      refine ⟨{ e with seq := r.seq } :: events,?_,?_⟩
      · rw [List.mapM_cons, EventRow.event_of_row he hrow, hevents]
        rfl
      · intro d hd
        obtain rfl | hd := List.mem_cons.mp hd
        · refine ⟨⟨he.named,he.decimal,he.document⟩,?_⟩
          change history e.eventId = some e.row
          rw [hid, hhist, hrow]
        · exact hsound d hd
  refine hread _ fun r hr => ?_
  rw [EventLog.limited] at hr
  split_ifs at hr
  · exact List.mem_of_mem_filter hr
  · exact List.mem_of_mem_filter (List.mem_of_mem_take hr)

omit [DecidableEq ι] in
theorem Sound.mergeInto (h : s.Sound history) {body : String} (hbody : body ∈ s.batches) (j : ι)
    (now : ℚ) : ∃ events log n, deserializeEvents body = some (events.map fun e => obj e.modelDump) ∧
      (∀ e ∈ events, e.Sound ∧ history e.eventId = some e.row) ∧
      s.mergeInto j body now = some (log,n) ∧ EventLog.Merges (s.logs j) events log n := by
  obtain ⟨events,rfl,hevents⟩ := h.batches body hbody
  have hread := deserializeEvents_serialize fun e he => (hevents e he).1
  obtain ⟨log,n,hmerge,hmerges⟩ :=
    EventLog.mergeEvents_dump (s.logs j) now fun e he => (hevents e he).1
  refine ⟨events,log,n,hread,hevents,?_,hmerges⟩
  rw [EventMesh.mergeInto, hread, Option.bind_some, hmerge]

/-- A log is replaced by one that has all its ids and is a part of a longer history. -/
theorem Sound.withLog {history' : EventId → Option EventRow} (h : s.Sound history)
    (hgrow : Part history history') {i : ι} {log : EventLog}
    (hlog : Part log.contents.get? history') (hids : ∀ id ∈ (s.logs i).ids, id ∈ log.ids)
    (hnew : ∀ id c, history' id = some c → history id = some c ∨
      (∃ e : MeshEvent, e.Sound ∧ e.row = c) ∧ id ∈ log.ids) :
    (s.withLog i log).Sound history' where
  rows j := by
    by_cases hj : j = i
    · subst hj
      simpa [EventMesh.withLog] using hlog
    · simpa [EventMesh.withLog, hj] using (h.rows j).trans hgrow
  batches body hbody := by
    obtain ⟨events,he,hevents⟩ := h.batches body hbody
    exact ⟨events,he,fun e hmem => ⟨(hevents e hmem).1,hgrow _ _ (hevents e hmem).2⟩⟩
  made id c hc := by
    obtain hold | ⟨hmade,-⟩ := hnew id c hc
    · exact h.made id c hold
    · exact hmade
  logged id c hc := by
    obtain hold | ⟨-,hmem⟩ := hnew id c hc
    · obtain ⟨j,hj⟩ := h.logged id c hold
      by_cases hji : j = i
      · subst hji
        exact ⟨j,by simpa [EventMesh.withLog] using hids id hj⟩
      · exact ⟨j,by simpa [EventMesh.withLog, hji] using hj⟩
    · exact ⟨i,by simpa [EventMesh.withLog] using hmem⟩

/-- What one operation does to the history: it stays, or it grows by a fresh event. -/
theorem sound_exec {op : EventOp ι} (hfresh : s.Fresh op) (h : s.Sound history) :
    ∃ history', Part history history' ∧ (s.exec op).Sound history' := by
  cases op with
  | append i eventType payload source eventId now =>
    obtain ⟨hne,hnew⟩ := hfresh
    set e : MeshEvent := { eventId := eventId, ts := now.1, eventType := eventType
                           payload := payload.1, sourceClusterId := source } with he
    have hsound : e.Sound := ⟨hne,now.2,payload.2⟩
    obtain ⟨log,hinsert,hids,hcontents⟩ := @EventLog.insert_of_not_mem (s.logs i) e
      (hnew i)
    have hexec : s.exec (.append i eventType payload source eventId now) = s.withLog i log := by
      rw [exec, EventLog.append, hinsert]
      rfl
    have hnone : history eventId = none := by
      by_contra hsome
      obtain ⟨c,hc⟩ := Option.ne_none_iff_exists'.mp hsome
      obtain ⟨j,hj⟩ := h.logged _ c hc
      exact hnew j hj
    have hgrow := part_update hnone e.row
    refine ⟨_,hgrow,?_⟩
    rw [hexec]
    refine h.withLog hgrow ?_ (fun id hid => by simp [hids, hid]) fun id c hc => ?_
    · rw [hcontents]
      exact Table.part_put ((h.rows i).trans hgrow) (Function.update_self _ _ _)
    · by_cases hid : id = eventId
      · subst hid
        rw [Function.update_self] at hc
        exact Or.inr ⟨⟨e,hsound,Option.some.inj hc⟩,by simp [hids, he]⟩
      · rw [Function.update_of_ne hid] at hc
        exact Or.inl hc
  | replay i sinceSeq limit =>
    obtain ⟨events,hreplay,hevents⟩ := h.replay i sinceSeq limit
    refine ⟨history,Part.refl _,?_⟩
    rw [exec, hreplay]
    refine ⟨h.rows,fun body hbody => ?_,h.made,h.logged⟩
    obtain hbody | hbody := List.mem_append.mp hbody
    · exact h.batches body hbody
    · exact ⟨events,List.mem_singleton.mp hbody,hevents⟩
  | merge j batch now =>
    refine ⟨history,Part.refl _,?_⟩
    rw [exec]
    cases hbody : s.batches[batch]? with
    | none => exact h
    | some body =>
      obtain ⟨events,log,n,-,hevents,hmerge,hmerges⟩ :=
        h.mergeInto (List.mem_of_getElem? hbody) j now
      rw [Option.bind_some, hmerge]
      refine h.withLog (Part.refl _) (hmerges.part (h.rows j) fun e he => (hevents e he).2) ?_ ?_
      · exact fun id hid => (hmerges.union id).mpr (Or.inl hid)
      · exact fun id c hc => Or.inl hc

/-- The ids in a serialised batch. -/
def batchIds (body : String) : List EventId :=
  ((deserializeEvents body).getD []).filterMap fun e =>
    (asObject e).bind fun o => (o.lookup "event_id").bind asStr

theorem batchIds_eq {body : String} {events : List MeshEvent}
    (h : deserializeEvents body = some (events.map fun e => obj e.modelDump)) :
    batchIds body = events.map MeshEvent.eventId := by
  rw [batchIds, h, Option.getD_some, List.filterMap_map]
  exact List.filterMap_eq_map_iff_forall_eq_some.mpr fun e _ => rfl

theorem ids_exec (h : s.Sound history) (op : EventOp ι) {i : ι} {id : EventId}
    (hid : id ∈ (s.logs i).ids) : id ∈ ((s.exec op).logs i).ids := by
  have hwith : ∀ j log, (∀ id ∈ (s.logs j).ids, id ∈ log.ids) →
      id ∈ ((s.withLog j log).logs i).ids := by
    intro j log hlog
    by_cases hij : i = j
    · subst hij
      simpa [withLog] using hlog id hid
    · simpa [withLog, hij] using hid
  cases op with
  | append j eventType payload source eventId now =>
    set e : MeshEvent := { eventId := eventId, ts := now.1, eventType := eventType
                           payload := payload.1, sourceClusterId := source }
    rw [exec, EventLog.append]
    by_cases hmem : e.eventId ∈ (s.logs j).ids
    · have hinsert := EventLog.insert_of_mem hmem
      rw [hinsert]
      exact hid
    · obtain ⟨log,hinsert,hids,-⟩ := EventLog.insert_of_not_mem hmem
      rw [hinsert]
      exact hwith j log fun k hk => by simp [hids, hk]
  | replay j sinceSeq limit =>
    rw [exec]
    cases (s.logs j).replay sinceSeq limit <;> exact hid
  | merge j batch now =>
    rw [exec]
    cases hbody : s.batches[batch]? with
    | none => exact hid
    | some body =>
      obtain ⟨events,log,n,-,-,hmerge,hmerges⟩ := h.mergeInto (List.mem_of_getElem? hbody) j now
      rw [Option.bind_some, hmerge]
      exact hwith j log fun k hk => (hmerges.union k).mpr (Or.inl hk)

theorem batches_exec (op : EventOp ι) {body : String} (h : body ∈ s.batches) :
    body ∈ (s.exec op).batches := by
  cases op with
  | append i eventType payload source eventId now =>
    rw [exec]
    cases (s.logs i).append eventType payload.1 source eventId now.1 <;> exact h
  | replay i sinceSeq limit =>
    rw [exec]
    cases (s.logs i).replay sinceSeq limit with
    | none => exact h
    | some events => exact List.mem_append_left _ h
  | merge j batch now =>
    rw [exec]
    cases s.batches[batch]?.bind fun body => s.mergeInto j body now <;> exact h

theorem sound_run {ops : List (EventOp ι)} (hfresh : Along exec Fresh s ops)
    (h : s.Sound history) : ∃ history', (run exec s ops).Sound history' :=
  run_invariant (I := fun t => ∃ history', t.Sound history')
    (fun _ _ hf ⟨_,ht⟩ => (sound_exec hf ht).imp fun _ hs => hs.2) hfresh ⟨history,h⟩

/-- What a batch has brought to a log stays there. -/
theorem held_run {ops : List (EventOp ι)} (hfresh : Along exec Fresh s ops) (h : s.Sound history)
    {i : ι} {body : String} (hbody : body ∈ s.batches)
    (hids : ∀ id ∈ batchIds body, id ∈ (s.logs i).ids) :
    body ∈ (run exec s ops).batches ∧
      ∀ id ∈ batchIds body, id ∈ ((run exec s ops).logs i).ids := by
  have hinv := run_invariant
    (I := fun t => (∃ history', t.Sound history') ∧ body ∈ t.batches ∧
      ∀ id ∈ batchIds body, id ∈ (t.logs i).ids)
    (fun t op hf ⟨⟨hist,ht⟩,hb,hi⟩ => ⟨(sound_exec hf ht).imp fun _ hs => hs.2,
      batches_exec op hb,fun id hid => ids_exec ht op (hi id hid)⟩) hfresh
    ⟨⟨history,h⟩,hbody,hids⟩
  exact hinv.2

/-- What it is that the logs only grow as sets: operations take no id away; a merge returns the
number of ids that it adds, and these are the ids of the batch; merged again at any later time the
batch adds nothing; a common id stands for the same event; logs with the same ids hold the same
events. -/
structure GrowOnly (s : EventMesh ι) : Prop where
  grows : ∀ op i, ∀ id ∈ (s.logs i).ids, id ∈ ((s.exec op).logs i).ids
  union : ∀ body ∈ s.batches, ∀ j now, ∃ log n, s.mergeInto j body now = some (log,n) ∧
    (∀ id, id ∈ log.ids ↔ id ∈ (s.logs j).ids ∨ id ∈ batchIds body) ∧
    log.ids.length = (s.logs j).ids.length+n
  repeated : ∀ batch body, s.batches[batch]? = some body → ∀ j now ops,
    Along exec Fresh (s.exec (.merge j batch now)) ops → ∀ now',
    (run exec (s.exec (.merge j batch now)) ops).mergeInto j body now' =
      some ((run exec (s.exec (.merge j batch now)) ops).logs j,0)
  agree : ∀ i j, ∀ r ∈ (s.logs i).rows, ∀ r' ∈ (s.logs j).rows, r.eventId = r'.eventId →
    r.unnumbered = r'.unnumbered
  converged : (∀ i j, ∀ id ∈ (s.logs i).ids, id ∈ (s.logs j).ids) → ∀ i j,
    ((s.logs i).rows.map EventRow.unnumbered).Perm ((s.logs j).rows.map EventRow.unnumbered)

/-- Whatever is appended, read and merged, and in whatever order: the logs of a mesh are sets that
only grow. -/
theorem growOnly (ops : List (EventOp ι)) (hfresh : Along exec Fresh {} ops) :
    (run exec {} ops : EventMesh ι).GrowOnly := by
  obtain ⟨history,h⟩ := sound_run hfresh sound_init
  set s := run exec ({} : EventMesh ι) ops
  refine ⟨fun op i id => ids_exec h op,?_,?_,?_,?_⟩
  · intro body hbody j now
    obtain ⟨events,log,n,hread,-,hmerge,hmerges⟩ := h.mergeInto hbody j now
    rw [batchIds_eq hread]
    exact ⟨log,n,hmerge,hmerges.union,hmerges.grown⟩
  · intro batch body hbody j now later hlater now'
    obtain ⟨events,log,n,hread,hevents,hmerge,hmerges⟩ :=
      h.mergeInto (List.mem_of_getElem? hbody) j now
    have hstep : ∃ history', Part history history' ∧
        (s.exec (.merge j batch now)).Sound history' := sound_exec trivial h
    obtain ⟨history',-,hnext⟩ := hstep
    have hlog : (s.exec (.merge j batch now)).logs j = log := by
      rw [exec, hbody, Option.bind_some, hmerge]
      exact Function.update_self _ _ _
    obtain ⟨hbatch,hheld⟩ := held_run (i := j) hlater hnext
      (batches_exec (.merge j batch now) (List.mem_of_getElem? hbody)) fun id hid => by
        rw [hlog, hmerges.union, ← batchIds_eq hread]
        exact Or.inr hid
    obtain ⟨_,hrun⟩ := sound_run hlater hnext
    obtain ⟨events',log',n',hread',-,hmerge',hmerges'⟩ := hrun.mergeInto hbatch j now'
    rw [hmerge']
    obtain ⟨rfl,rfl⟩ := hmerges'.known fun e he => hheld e.eventId <| by
      rw [batchIds_eq hread']
      exact List.mem_map_of_mem he
    rfl
  · intro i j r hr r' hr' hid
    have hrow := (h.of_row hr).1
    have hrow' := (h.of_row hr').1
    rw [hid, hrow'] at hrow
    exact (Option.some.inj hrow).symm
  · intro hall i j
    refine Table.perm_of_part (h.rows i) (h.rows j) fun id => ?_
    rw [EventLog.keys_contents, EventLog.keys_contents]
    exact ⟨hall i j id,hall j i id⟩

/-- Two logs with an event each, and the first one's sent to the second. -/
def exchange : List (EventOp Bool) :=
  [.append false "JOB_CREATED" ⟨[("job_id",str "j")],by decide⟩ "eu" "e1" ⟨1,by decide⟩,
   .append true "NODE_JOINED" ⟨[],by decide⟩ "us" "e2" ⟨2,by decide⟩,
   .replay false 0 500,
   .merge true 0 3]

theorem growOnly_exchange : (run exec {} exchange : EventMesh Bool).GrowOnly :=
  growOnly exchange ⟨⟨by decide,by decide⟩,⟨by decide,by decide⟩,trivial,trivial,trivial⟩

example : ((run exec {} exchange : EventMesh Bool).logs true).ids = ["e2","e1"] := by
  decide +kernel

end EventMesh
end Arsonist.DistributedQueue
