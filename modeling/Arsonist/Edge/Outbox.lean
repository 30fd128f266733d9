import Arsonist.Edge.EdgeRuntime
import Arsonist.Library.Members

/-! The outbox of an edge runtime: what the callback is given is the outbox in its order, each
payload once, and the rows that are marked are those that were given. -/
namespace Arsonist.Edge
open Arsonist.Library
namespace EdgeRuntime

/-- The payload lists of the calls to the callback that succeed in a run. -/
def deliveries : EdgeRuntime → List EdgeEvent → List (List Json)
  | _, [] => []
  | s, .flushOutbox raises :: es =>
    (s.flushOutbox raises).2.toList ++ deliveries (s.flushOutbox raises).1 es
  | s, e :: es => deliveries (s.exec e) es

/-- What a run puts into the outbox. -/
def enqueued (nodeId : String) (es : List EdgeEvent) : List Json :=
  es.filterMap fun e =>
    match e with
    | .storeResult now requestKey _ => some (outboxPayload nodeId requestKey now)
    | _ => none

/-- The outbox is a part that was delivered and is marked, and a part that waits and is not. -/
structure Queue (nodeId : String) (delivered waiting : List Json) (s : EdgeRuntime) : Prop where
  onSync : s.onSync = true
  nodeId : s.nodeId = nodeId
  ids : s.edgeOutbox.map OutboxRow.id = List.range' 1 s.edgeOutbox.length
  parts : ∃ done rest, s.edgeOutbox = done ++ rest ∧
    (∀ row ∈ done, row.synced = true) ∧ (∀ row ∈ rest, row.synced = false) ∧
    done.map (fun row => Json.decode row.payload) = delivered.map some ∧
    rest.map (fun row => Json.decode row.payload) = waiting.map some

variable {nodeId : String} {delivered waiting : List Json} {s : EdgeRuntime}

/-- A step that does not touch the outbox. -/
theorem Queue.of_eq (h : s.Queue nodeId delivered waiting) {s' : EdgeRuntime}
    (houtbox : s'.edgeOutbox = s.edgeOutbox) (hsync : s'.onSync = s.onSync)
    (hnode : s'.nodeId = s.nodeId) : s'.Queue nodeId delivered waiting := by
  refine ⟨hsync.trans h.onSync,hnode.trans h.nodeId,?_,?_⟩
  · rw [houtbox]
    exact h.ids
  · rw [houtbox]
    exact h.parts

theorem wellFormed_outboxPayload (nodeId requestKey : String) (ts : Json.Decimal) :
    Json.wellFormed (outboxPayload nodeId requestKey ts) = true := by
  simp [outboxPayload, Json.wellFormed, Json.membersWellFormed, ts.2]

theorem Queue.storeResult (h : s.Queue nodeId delivered waiting) (now : Json.Decimal)
    (requestKey : String) (result : Json.Object) :
    (s.storeResult now requestKey result).Queue nodeId delivered
      (waiting ++ [outboxPayload nodeId requestKey now]) := by
  obtain ⟨done,rest,houtbox,hdone,hrest,hdelivered,hwaiting⟩ := h.parts
  have hnew : (s.storeResult now requestKey result).edgeOutbox = s.edgeOutbox ++
      [⟨s.edgeOutbox.length+1,(outboxPayload s.nodeId requestKey now).encode,now,false⟩] := rfl
  refine ⟨h.onSync,h.nodeId,?_,done,_,hnew.trans (by rw [houtbox, List.append_assoc]),hdone,?_,
    hdelivered,?_⟩
  · rw [hnew, List.map_append, h.ids, List.length_append, List.length_singleton,
      List.range'_concat]
    simp [Nat.add_comm]
  · intro row hrow
    obtain hrow | hrow := List.mem_append.mp hrow
    · exact hrest row hrow
    · obtain rfl := List.mem_singleton.mp hrow
      rfl
  · rw [List.map_append, hwaiting, List.map_append, List.map_singleton, List.map_singleton,
      Json.decode_encode (wellFormed_outboxPayload _ _ now), h.nodeId]

/-- Only the two tiers and the counters change in a lookup. -/
theorem getCache_frame (s : EdgeRuntime) (now : ℚ) (key : String) :
    (s.getCache now key).1.edgeOutbox = s.edgeOutbox ∧
      (s.getCache now key).1.onSync = s.onSync ∧ (s.getCache now key).1.nodeId = s.nodeId := by
  unfold getCache
  split
  · exact ⟨rfl,rfl,rfl⟩
  · split
    · exact ⟨rfl,rfl,rfl⟩
    · split
      · exact ⟨rfl,rfl,rfl⟩
      · exact ⟨rfl,rfl,rfl⟩

theorem handleRequest_frame (s : EdgeRuntime) (now : ℚ) (key : String) :
    (s.handleRequest now key).1.edgeOutbox = s.edgeOutbox ∧
      (s.handleRequest now key).1.onSync = s.onSync ∧
      (s.handleRequest now key).1.nodeId = s.nodeId := by
  have h := getCache_frame { s with requestsServed := s.requestsServed+1 } now key
  unfold handleRequest
  dsimp only
  split
  · exact h
  · split_ifs
    · exact h
    · exact h
    · exact h

theorem setConnected_frame (s : EdgeRuntime) (connected : Bool) :
    (s.setConnected connected).edgeOutbox = s.edgeOutbox ∧
      (s.setConnected connected).onSync = s.onSync ∧
      (s.setConnected connected).nodeId = s.nodeId := by
  unfold setConnected
  split_ifs <;> exact ⟨rfl,rfl,rfl⟩

/-- The batch is the head of the part that waits. -/
theorem batch_eq {done rest : List OutboxRow} (houtbox : s.edgeOutbox = done ++ rest)
    (hdone : ∀ row ∈ done, row.synced = true) (hrest : ∀ row ∈ rest, row.synced = false) :
    s.batch = rest.take 100 := by
  rw [batch, houtbox, List.filter_append,
    List.filter_eq_nil_iff.mpr fun row hrow => by simp [hdone row hrow],
    List.filter_eq_self.mpr fun row hrow => by simp [hrest row hrow], List.nil_append]

/-- Marking the rows of a batch marks these rows. -/
theorem mark_batch {done rows rest : List OutboxRow}
    (hnodup : ((done ++ (rows ++ rest)).map OutboxRow.id).Nodup)
    (hdone : ∀ row ∈ done, row.synced = true) :
    (done ++ (rows ++ rest)).map (fun row =>
        if row.id ∈ rows.map OutboxRow.id then { row with synced := true } else row) =
      done ++ (rows.map (fun row => { row with synced := true }) ++ rest) := by
  have hkeep : ∀ row ∈ done, (if row.id ∈ rows.map OutboxRow.id then
      { row with synced := true } else row) = row := by
    intro row hrow
    split_ifs
    · rw [← hdone row hrow]
    · rfl
  have hrest : ∀ row ∈ rest, row.id ∉ rows.map OutboxRow.id := by
    intro row hrow hmem
    rw [List.map_append, List.map_append] at hnodup
    have hparts := (List.nodup_append.mp hnodup).2.1
    exact (List.nodup_append.mp hparts).2.2 _ hmem _ (List.mem_map_of_mem hrow) rfl
  rw [List.map_append, List.map_append, List.map_congr_left hkeep, List.map_id']
  congr 2
  · exact List.map_congr_left fun row hrow => if_pos (List.mem_map_of_mem hrow)
  · exact (List.map_congr_left fun row hrow => if_neg (hrest row hrow)).trans (List.map_id' _)

/-- A flush delivers the first payloads that wait, or it changes nothing in the outbox. -/
theorem Queue.flushOutbox (h : s.Queue nodeId delivered waiting) (raises : Bool) :
    ((s.flushOutbox raises).2 = none ∧
      (s.flushOutbox raises).1.Queue nodeId delivered waiting) ∨
    ((s.flushOutbox raises).2 = some (waiting.take 100) ∧
      (s.flushOutbox raises).1.Queue nodeId (delivered ++ waiting.take 100)
        (waiting.drop 100)) := by
  obtain ⟨done,rest,houtbox,hdone,hrest,hdelivered,hwaiting⟩ := h.parts
  have hbatch := batch_eq houtbox hdone hrest
  have htake : (rest.take 100).map (fun row => Json.decode row.payload) =
      (waiting.take 100).map some := by
    rw [List.map_take, hwaiting, List.map_take]
  have hentries := mapM_eq_some_of_map htake
  have hsplit : s.edgeOutbox = done ++ (rest.take 100 ++ rest.drop 100) := by
    rw [List.take_append_drop]
    exact houtbox
  unfold EdgeRuntime.flushOutbox
  dsimp only
  rw [hbatch]
  by_cases hempty : (rest.take 100).isEmpty = true
  · rw [if_pos hempty]
    exact Or.inl ⟨rfl,h.of_eq rfl rfl rfl⟩
  · rw [if_neg hempty, hentries]
    dsimp only
    by_cases hfail : (s.onSync && raises) = true
    · rw [if_pos hfail]
      exact Or.inl ⟨rfl,h⟩
    · rw [if_neg hfail]
      have hnodup : ((done ++ (rest.take 100 ++ rest.drop 100)).map OutboxRow.id).Nodup := by
        rw [← hsplit, h.ids]
        exact List.nodup_range'
      have hmarked := mark_batch hnodup hdone
      rw [← hsplit] at hmarked
      refine Or.inr ⟨if_pos h.onSync,h.onSync,h.nodeId,?_,?_⟩
      · dsimp only
        rw [List.length_map, ← h.ids, List.map_map]
        apply List.map_congr_left
        intro row _
        dsimp only [Function.comp_apply]
        split_ifs <;> rfl
      · refine ⟨done ++ (rest.take 100).map fun row => { row with synced := true },
          rest.drop 100,?_,?_,fun row hrow => hrest row (List.mem_of_mem_drop hrow),?_,?_⟩
        · dsimp only
          rw [hmarked, List.append_assoc]
        · intro row hrow
          obtain hrow | hrow := List.mem_append.mp hrow
          · exact hdone row hrow
          · obtain ⟨old,-,rfl⟩ := List.mem_map.mp hrow
            rfl
        · rw [List.map_append, hdelivered, List.map_map, List.map_append]
          exact congrArg _ htake
        · rw [List.map_drop, hwaiting, List.map_drop]

/-- What a run delivers and what it leaves in the outbox. -/
theorem Queue.run (h : s.Queue nodeId delivered waiting) (es : List EdgeEvent) :
    ∃ waiting', (run exec s es).Queue nodeId (delivered ++ (deliveries s es).flatten) waiting' ∧
      (deliveries s es).flatten ++ waiting' = waiting ++ enqueued nodeId es := by
  induction es generalizing s delivered waiting with
  | nil => exact ⟨waiting,by simpa [deliveries] using h,by simp [deliveries, enqueued]⟩
  | cons e es ih =>
    cases e with
    | storeResult now requestKey result =>
      obtain ⟨waiting',hqueue,he⟩ := ih (h.storeResult now requestKey result.1)
      exact ⟨waiting',hqueue,by rw [List.append_assoc] at he; exact he⟩
    | handleRequest now requestKey =>
      obtain ⟨houtbox,hsync,hnode⟩ := handleRequest_frame s now requestKey
      exact ih (h.of_eq houtbox hsync hnode)
    | setConnected connected =>
      obtain ⟨houtbox,hsync,hnode⟩ := setConnected_frame s connected
      exact ih (h.of_eq houtbox hsync hnode)
    | flushOutbox raises =>
      rw [deliveries]
      obtain ⟨hnone,hnext⟩ | ⟨hsome,hnext⟩ := h.flushOutbox raises
      · rw [hnone]
        exact ih hnext
      · obtain ⟨waiting',hqueue,he⟩ := ih hnext
        rw [hsome]
        refine ⟨waiting',?_,?_⟩
        · rw [List.append_assoc] at hqueue
          exact hqueue
        · change (waiting.take 100 ++ (deliveries _ es).flatten) ++ waiting' = _
          rw [List.append_assoc, he, ← List.append_assoc, List.take_append_drop]
          rfl

/-- What the outbox of a runtime promises to the region about a run. -/
structure Delivers (s : EdgeRuntime) (es : List EdgeEvent) : Prop where
  /-- The outbox holds what was put into it, in this order. -/
  rows : (Library.run exec s es).edgeOutbox.map (fun row => Json.decode row.payload) =
    (enqueued s.nodeId es).map some
  /-- The calls of the callback that succeeded got the first of these, one after the other. -/
  inOrder : (deliveries s es).flatten <+: enqueued s.nodeId es
  /-- The rows of these are marked and no others. -/
  marked : ∀ i row, (Library.run exec s es).edgeOutbox[i]? = some row →
    (row.synced = true ↔ i < (deliveries s es).flatten.length)
  /-- A callback that raises leaves the outbox as it is. -/
  failed : ∀ p q, es = p ++ .flushOutbox true :: q →
    (Library.run exec s (p ++ [.flushOutbox true])).edgeOutbox = (Library.run exec s p).edgeOutbox

theorem flushOutbox_raises (hsync : s.onSync = true) :
    (s.flushOutbox true).1.edgeOutbox = s.edgeOutbox := by
  have hfail : (s.onSync && true) = true := by rw [hsync]; rfl
  unfold flushOutbox
  dsimp only
  by_cases hempty : s.batch.isEmpty = true
  · rw [if_pos hempty]
  · rw [if_neg hempty]
    split
    · rfl
    · rw [if_pos hfail]

/-- The parts of an outbox, told by the marks of its rows. -/
theorem Queue.marked (h : s.Queue nodeId delivered waiting) {i : ℕ} {row : OutboxRow}
    (hrow : s.edgeOutbox[i]? = some row) : row.synced = true ↔ i < delivered.length := by
  obtain ⟨done,rest,houtbox,hdone,hrest,hdelivered,-⟩ := h.parts
  have hlength : done.length = delivered.length := by
    simpa using congrArg List.length hdelivered
  rw [houtbox] at hrow
  rw [← hlength]
  by_cases hlt : i < done.length
  · rw [List.getElem?_append_left hlt] at hrow
    exact iff_of_true (hdone row (List.mem_of_getElem? hrow)) hlt
  · rw [List.getElem?_append_right (not_lt.mp hlt)] at hrow
    have hfalse := hrest row (List.mem_of_getElem? hrow)
    exact iff_of_false (by rw [hfalse]; exact Bool.false_ne_true) hlt

/-- A runtime that starts with an empty outbox and has a callback keeps its promise in every run.
-/
theorem outbox_delivers (nodeId regionId : String) (cacheMaxEntries : ℕ)
    (es : List EdgeEvent) :
    Delivers { nodeId, regionId, cacheMaxEntries, onSync := true } es := by
  have hinit : ({ nodeId, regionId, cacheMaxEntries, onSync := true } : EdgeRuntime).Queue
      nodeId [] [] := ⟨rfl,rfl,rfl,[],[],rfl,nofun,nofun,rfl,rfl⟩
  obtain ⟨waiting,hqueue,he⟩ := hinit.run es
  rw [List.nil_append] at hqueue he
  refine ⟨?_,⟨waiting,he⟩,fun i row hrow => hqueue.marked hrow,?_⟩
  · obtain ⟨done,rest,houtbox,-,-,hdelivered,hwaiting⟩ := hqueue.parts
    rw [houtbox, List.map_append, hdelivered, hwaiting, ← List.map_append, he]
  · rintro p q rfl
    obtain ⟨waiting',hqueue',-⟩ := hinit.run p
    rw [run_concat]
    exact flushOutbox_raises hqueue'.onSync

end EdgeRuntime
end Arsonist.Edge
