import Arsonist.DistributedQueue.MeshEvents

/-! What a call of `merge_events` leaves in the log. -/
namespace Arsonist.DistributedQueue
open Arsonist.Library Arsonist.Mesh

variable {J : Type*} (py : PyJson J)

/-- The row holds the event of the element. -/
def PyJson.Holds (r : StoredEvent) (a : Arrival J) : Prop :=
  py.newEvent a.now a.element = some (some r.toNewEvent)

/-- The rows hold events of the array, in its order. -/
def GrownFrom (arrivals : List (Arrival J)) (new : List StoredEvent) : Prop :=
  ∃ taken, List.Sublist taken arrivals ∧ List.Forall₂ py.Holds new taken

variable {py} {log log' : EventTable} {arrivals : List (Arrival J)} {new : List StoredEvent}

theorem GrownFrom.nil : GrownFrom py arrivals [] :=
  ⟨[],List.nil_sublist arrivals,List.Forall₂.nil⟩

theorem GrownFrom.skip (h : GrownFrom py arrivals new) (a : Arrival J) :
    GrownFrom py (a :: arrivals) new := by
  obtain ⟨taken,hsub,hheld⟩ := h
  exact ⟨taken,hsub.trans (List.sublist_cons_self a arrivals),hheld⟩

theorem GrownFrom.take {a : Arrival J} {r : StoredEvent} (hr : py.Holds r a)
    (h : GrownFrom py arrivals new) : GrownFrom py (a :: arrivals) (r :: new) := by
  obtain ⟨taken,hsub,hheld⟩ := h
  exact ⟨a :: taken,List.cons_sublist_cons.mpr hsub,List.Forall₂.cons hr hheld⟩

namespace EventTable

theorem insert_some {gap : ℕ} {ev : NewEvent} (h : log.insert gap ev = some log') :
    log'.rows = log.rows ++ [{ ev with seq := log.lastSeq+1+gap }] := by
  rw [insert] at h
  split at h
  · cases h
  split at h
  · cases h
  obtain rfl := Option.some.inj h
  rfl

variable (py)

/-- The loop works on the data of the transaction alone, and counts the rows that it adds
there. -/
theorem mergeLoop_spec (conn : Connection EventTable) (inserted : ℕ)
    (arrivals : List (Arrival J)) :
    (mergeLoop py conn inserted arrivals).1.stored = conn.stored ∧
    ∀ n, (mergeLoop py conn inserted arrivals).2 = some n →
      ∃ new, (mergeLoop py conn inserted arrivals).1.current.rows = conn.current.rows ++ new ∧
        n = inserted+new.length ∧ GrownFrom py arrivals new := by
  induction arrivals generalizing conn inserted with
  | nil =>
    refine ⟨rfl,fun n hn => ?_⟩
    obtain rfl := Option.some.inj hn
    exact ⟨[],(List.append_nil _).symm,rfl,GrownFrom.nil⟩
  | cons a arrivals ih =>
    rw [mergeLoop]
    cases hev : py.newEvent a.now a.element with
    | none => exact ⟨rfl,nofun⟩
    | some ev? =>
    cases ev? with
    | none =>
      obtain ⟨hstored,hgrown⟩ := ih conn inserted
      refine ⟨hstored,fun n hn => ?_⟩
      obtain ⟨new,hrows,hlen,hfrom⟩ := hgrown n hn
      exact ⟨new,hrows,hlen,hfrom.skip a⟩
    | some ev =>
      dsimp only
      by_cases hfails : a.fails
      · rw [if_pos hfails]
        exact ⟨rfl,nofun⟩
      · rw [if_neg hfails]
        cases hins : insert a.gap ev conn.current with
        | none =>
          -- the row is refused; the transaction goes on without it
          rw [Connection.execute_of_none hins]
          obtain ⟨hstored,hgrown⟩ := ih { conn with pending := some conn.current } inserted
          refine ⟨hstored,fun n hn => ?_⟩
          obtain ⟨new,hrows,hlen,hfrom⟩ := hgrown n hn
          exact ⟨new,hrows,hlen,hfrom.skip a⟩
        | some log' =>
          rw [Connection.execute_of_some hins]
          obtain ⟨hstored,hgrown⟩ := ih { conn with pending := some log' } (inserted+1)
          refine ⟨hstored,fun n hn => ?_⟩
          obtain ⟨new,hrows,hlen,hfrom⟩ := hgrown n hn
          have hheld : py.Holds { ev with seq := conn.current.lastSeq+1+a.gap } a := hev
          have hlog' := insert_some hins
          refine ⟨_ :: new,?_,?_,hfrom.take hheld⟩
          · rw [hrows]
            change log'.rows ++ new = _
            rw [hlog', List.append_assoc, List.singleton_append]
          · rw [hlen, List.length_cons]
            omega

/-- If the call raises, the log is as it was. -/
theorem mergeEvents_raised {commits : Bool} {arrivals : List (Arrival J)} {log : EventTable}
    (h : (log.mergeEvents py commits arrivals).2 = none) :
    (log.mergeEvents py commits arrivals).1 = log := by
  have hstored := (mergeLoop_spec py { stored := log } 0 arrivals).1
  rw [mergeEvents] at h ⊢
  cases hloop : mergeLoop py { stored := log } 0 arrivals with
  | mk conn result =>
  rw [hloop] at h hstored
  cases result with
  | none => exact hstored
  | some inserted =>
    dsimp only at h ⊢
    by_cases hcommits : commits
    · rw [if_pos hcommits] at h
      cases h
    · rw [if_neg hcommits]
      exact hstored

/-- If the call returns, the log has grown by what was inserted. -/
theorem mergeEvents_returned {commits : Bool} {arrivals : List (Arrival J)} {log : EventTable}
    {n : ℕ} (h : (log.mergeEvents py commits arrivals).2 = some n) :
    ∃ new, (log.mergeEvents py commits arrivals).1.rows = log.rows ++ new ∧
      new.length = n ∧ GrownFrom py arrivals new := by
  have hgrown := (mergeLoop_spec py { stored := log } 0 arrivals).2
  rw [mergeEvents] at h ⊢
  cases hloop : mergeLoop py { stored := log } 0 arrivals with
  | mk conn result =>
  rw [hloop] at h hgrown
  cases result with
  | none => cases h
  | some inserted =>
    dsimp only at h ⊢
    by_cases hcommits : commits
    · rw [if_pos hcommits] at h ⊢
      obtain rfl := Option.some.inj h
      obtain ⟨new,hrows,hlen,hfrom⟩ := hgrown inserted rfl
      refine ⟨new,hrows,?_,hfrom⟩
      rw [hlen, Nat.zero_add]
    · rw [if_neg hcommits] at h
      cases h

/-- Either way the rows that were there stay, at the beginning. -/
theorem mergeEvents_rows (commits : Bool) (arrivals : List (Arrival J)) (log : EventTable) :
    ∃ new, (log.mergeEvents py commits arrivals).1.rows = log.rows ++ new := by
  cases hresult : (log.mergeEvents py commits arrivals).2 with
  | none =>
    rw [mergeEvents_raised py hresult]
    exact ⟨[],(List.append_nil _).symm⟩
  | some n =>
    obtain ⟨new,hrows,_⟩ := mergeEvents_returned py hresult
    exact ⟨new,hrows⟩

/-- `merge_events` is all or nothing: if the call raises, the log is as it was; if it returns a
number, the log has grown by that many events, all of them from the array. -/
theorem mergeEvents_all_or_nothing (commits : Bool) (arrivals : List (Arrival J))
    (log : EventTable) :
    ((log.mergeEvents py commits arrivals).2 = none →
      (log.mergeEvents py commits arrivals).1 = log) ∧
    ∀ n, (log.mergeEvents py commits arrivals).2 = some n →
      ∃ new, (log.mergeEvents py commits arrivals).1.rows = log.rows ++ new ∧
        new.length = n ∧ GrownFrom py arrivals new :=
  ⟨mergeEvents_raised py,fun _ => mergeEvents_returned py⟩

end EventTable

/-! ### The log of times that are numbers -/

/-- The values of `Json`. Python can write each of them. -/
def jsonValues : PyJson Json where
  get e := (Json.asObject e).map fun o name => o.lookup name
  emptyObject := Json.obj []
  truthy := Json.truthy
  text v := some (Json.toText v)
  float v := (Json.toFloat v).map .number
  dumps v := some (Json.encode v)
  loads := Json.decode

def StoredEvent.ofRow (r : EventRow) : StoredEvent where
  eventId := r.eventId
  ts := .number r.ts
  eventType := r.eventType
  payload := r.payload
  sourceClusterId := r.sourceClusterId
  seq := r.seq

def EventTable.ofLog (log : EventLog) : EventTable where
  rows := log.rows.map StoredEvent.ofRow
  increasing := List.pairwise_map.mpr log.increasing
  unique := by
    rw [List.map_map]
    exact log.unique

theorem EventTable.ext {log log' : EventTable} (h : log.rows = log'.rows) : log = log' := by
  cases log
  cases log'
  cases h
  rfl

theorem EventTable.lastSeq_ofLog (log : EventLog) :
    (EventTable.ofLog log).lastSeq = log.lastSeq := by
  rw [lastSeq, EventLog.lastSeq, ofLog, List.getLast?_map, Option.map_map]
  rfl

/-- An insert without a gap is the insert of that log. -/
theorem EventTable.insert_ofLog (log : EventLog) (eventId : EventId) (ts : ℚ)
    (eventType payload : String) (source : ClusterId) :
    (EventTable.ofLog log).insert 0 ⟨eventId,.number ts,eventType,payload,source⟩ =
      (log.insert eventId ts eventType payload source).map EventTable.ofLog := by
  have hids : (EventTable.ofLog log).ids = log.ids := by
    rw [ids, EventLog.ids, ofLog, List.map_map]
    rfl
  rw [insert, EventLog.insert, if_neg (by simp)]
  by_cases h : eventId ∈ log.ids
  · rw [dif_pos (hids ▸ h), dif_pos h]
    rfl
  · rw [dif_neg (hids ▸ h), dif_neg h]
    refine congrArg some (EventTable.ext ?_)
    change (EventTable.ofLog log).rows ++ _ = (log.rows ++ _).map StoredEvent.ofRow
    rw [List.map_append, lastSeq_ofLog]
    rfl

theorem textAt_json (o : Json.Object) (name default : String) :
    jsonValues.textAt (fun name => o.lookup name) name default =
      some (Json.toText ((o.lookup name).getD (.str default))) := by
  rw [PyJson.textAt]
  cases o.lookup name with
  | none => rfl
  | some v => rfl

/-- `e.get(name) or default`. -/
theorem getD_filter_truthy (o : Json.Object) (name : String) (default : Json) :
    ((o.lookup name).filter Json.truthy).getD default =
      if ((o.lookup name).getD .null).truthy then (o.lookup name).getD .null else default := by
  cases o.lookup name with
  | none => rfl
  | some v =>
    rw [Option.filter, Option.getD_some]
    by_cases ht : v.truthy
    · rw [if_pos ht, if_pos ht]
      rfl
    · rw [if_neg ht, if_neg ht]
      rfl

theorem idOf_json (o : Json.Object) :
    jsonValues.idOf (fun name => o.lookup name) =
      some (Json.toText (if ((o.lookup "event_id").getD .null).truthy then
        (o.lookup "event_id").getD .null else .str "")) := by
  rw [PyJson.idOf, textAt_json]
  cases o.lookup "event_id" with
  | none => rfl
  | some v =>
    by_cases ht : v.truthy
    · rw [Option.getD_some, Option.getD_some, if_pos ht]
      exact if_pos ht
    · rw [Option.getD_some, Option.getD_some, if_neg ht]
      exact if_neg ht

theorem tsOf_json (now : ℚ) (o : Json.Object) :
    jsonValues.tsOf now (fun name => o.lookup name) =
      (Json.toFloat ((o.lookup "ts").getD (.float now))).map .number := by
  rw [PyJson.tsOf]
  cases o.lookup "ts" with
  | none => rfl
  | some v => rfl

/-- One turn of the loop on both logs. -/
theorem mergeEvent_ofLog (now : ℚ) (s : EventLog × ℕ) (e : Json) :
    (EventLog.mergeEvent now s e).map (fun t => (EventTable.ofLog t.1,t.2)) =
      (jsonValues.newEvent now e).map fun ev? =>
        match ev? with
        | none => (EventTable.ofLog s.1,s.2)
        | some ev =>
          match (EventTable.ofLog s.1).insert 0 ev with
          | none => (EventTable.ofLog s.1,s.2)
          | some log => (log,s.2+1) := by
  cases ho : Json.asObject e with
  | none =>
    have hget : jsonValues.get e = none := by
      change (Json.asObject e).map _ = _
      rw [ho]
      rfl
    rw [EventLog.mergeEvent, PyJson.newEvent, ho, hget]
    rfl
  | some o =>
    have hget : jsonValues.get e = some fun name => o.lookup name := by
      change (Json.asObject e).map _ = _
      rw [ho]
      rfl
    rw [EventLog.mergeEvent, PyJson.newEvent, ho, hget]
    simp only [Option.bind_eq_bind, Option.bind_some, idOf_json, tsOf_json, textAt_json]
    generalize Json.toText (if ((o.lookup "event_id").getD .null).truthy then
      (o.lookup "event_id").getD .null else .str "") = eventId
    by_cases hskip : eventId = ""
    · rw [if_pos hskip, if_pos hskip]
      rfl
    · rw [if_neg hskip, if_neg hskip]
      cases Json.toFloat ((o.lookup "ts").getD (.float now)) with
      | none => rfl
      | some ts =>
        simp only [Option.bind_some, Option.map_some, jsonValues, getD_filter_truthy]
        rw [EventTable.insert_ofLog]
        cases s.1.insert eventId ts _ _ _ with
        | none => rfl
        | some log => rfl

/-- The elements as they arrive at one time, without gaps or failures. -/
def arrivalsAt (now : ℚ) (events : List Json) : List (Arrival Json) :=
  events.map fun e => { element := e, now := now }

theorem mergeLoop_ofLog (now : ℚ) (events : List Json) (s : EventLog × ℕ)
    (conn : Connection EventTable) (h : conn.current = EventTable.ofLog s.1) :
    match events.foldlM (EventLog.mergeEvent now) s with
    | none => (EventTable.mergeLoop jsonValues conn s.2 (arrivalsAt now events)).2 = none
    | some t =>
      (EventTable.mergeLoop jsonValues conn s.2 (arrivalsAt now events)).2 = some t.2 ∧
      (EventTable.mergeLoop jsonValues conn s.2 (arrivalsAt now events)).1.current =
        EventTable.ofLog t.1 := by
  induction events generalizing s conn with
  | nil => exact ⟨rfl,h⟩
  | cons e events ih =>
    have hturn := mergeEvent_ofLog now s e
    rw [List.foldlM_cons, arrivalsAt, List.map_cons, EventTable.mergeLoop]
    cases hev : jsonValues.newEvent now e with
    | none =>
      rw [hev] at hturn
      rw [Option.map_eq_none_iff.mp hturn]
      rfl
    | some ev? =>
    rw [hev, Option.map_some] at hturn
    obtain ⟨t,ht,hturn⟩ := Option.map_eq_some_iff.mp hturn
    obtain ⟨log,n⟩ := t
    rw [ht]
    cases ev? with
    | none =>
      obtain ⟨hlog,hn⟩ := Prod.mk.inj hturn
      obtain rfl : n = s.2 := hn
      exact ih (log,s.2) conn (h.trans hlog.symm)
    | some ev =>
      dsimp only at hturn ⊢
      rw [if_neg (by simp)]
      cases hins : (EventTable.ofLog s.1).insert 0 ev with
      | none =>
        rw [hins] at hturn
        rw [Connection.execute_of_none (h ▸ hins)]
        obtain ⟨hlog,hn⟩ := Prod.mk.inj hturn
        obtain rfl : n = s.2 := hn
        exact ih (log,s.2) _ (h.trans hlog.symm)
      | some log' =>
        rw [hins] at hturn
        rw [Connection.execute_of_some (h ▸ hins)]
        obtain ⟨hlog,hn⟩ := Prod.mk.inj hturn
        obtain rfl : n = s.2+1 := hn
        exact ih (log,s.2+1) _ hlog.symm

/-- On JSON values that Python can read and write, and on times that are numbers, the table does
what that log does. -/
theorem mergeEvents_ofLog (now : ℚ) (log : EventLog) (events : List Json) :
    (EventTable.ofLog log).mergeEvents jsonValues true (arrivalsAt now events) =
      match log.mergeEvents now events with
      | none => (EventTable.ofLog log,none)
      | some t => (EventTable.ofLog t.1,some t.2) := by
  have hloop := mergeLoop_ofLog now events (log,0) { stored := EventTable.ofLog log } rfl
  have hstored := (EventTable.mergeLoop_spec jsonValues { stored := EventTable.ofLog log } 0
    (arrivalsAt now events)).1
  rw [EventTable.mergeEvents, EventLog.mergeEvents]
  cases hrun : EventTable.mergeLoop jsonValues { stored := EventTable.ofLog log } 0
    (arrivalsAt now events) with
  | mk conn result =>
  rw [hrun] at hloop hstored
  cases hfold : events.foldlM (EventLog.mergeEvent now) (log,0) with
  | none =>
    rw [hfold] at hloop
    obtain rfl : result = none := hloop
    exact congrArg (·,none) hstored
  | some t =>
    rw [hfold] at hloop
    obtain ⟨hresult,hcurrent⟩ := hloop
    obtain rfl : result = some t.2 := hresult
    exact congrArg (·,some t.2) hcurrent

end Arsonist.DistributedQueue
