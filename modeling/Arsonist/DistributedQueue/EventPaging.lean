import Arsonist.DistributedQueue.MergeAtomicity
import Arsonist.Library.Members
import Arsonist.Library.Paging
import Arsonist.Library.Runs

/-! A reader that pages through the event log with `replay`, while events are appended and
merged. -/
namespace Arsonist.DistributedQueue
open Arsonist.Library Arsonist.Mesh

variable {J : Type*}

def StoredEvent.position (r : StoredEvent) : ℤ := r.seq

def ReplayedEvent.position (m : ReplayedEvent J) : ℤ := m.seq

/-- The log and its reader: the `since_seq` of the next call, and all that was received. -/
structure Follower (J : Type*) where
  log : EventTable
  cursor : ℤ
  received : List (ReplayedEvent J) := []

inductive FollowerEvent (J : Type*)
  | append (now : ℚ) (gap : ℕ) (eventId : EventId) (eventType : String) (payload : J)
      (sourceClusterId : ClusterId)
  | merge (commits : Bool) (arrivals : List (Arrival J))
  | replay (limit : ℤ)

variable (py : PyJson J)

/-- A call that raises is no page. -/
def Follower.step (f : Follower J) : FollowerEvent J → Follower J
  | .append now gap eventId eventType payload sourceClusterId =>
    { f with log := (f.log.append py now gap eventId eventType payload sourceClusterId).1 }
  | .merge commits arrivals => { f with log := (f.log.mergeEvents py commits arrivals).1 }
  | .replay limit =>
    match f.log.replay py f.cursor limit with
    | none => f
    | some events =>
      { f with cursor := endOf ReplayedEvent.position f.cursor events
               received := f.received ++ events }

/-- The message is the event of the row. -/
def PyJson.Reads (r : StoredEvent) (m : ReplayedEvent J) : Prop := py.event r = some m

/-- The reader has received the events between the place where it began and its cursor, which
stands at a row. -/
structure Follower.Exact (start : ℤ) (f : Follower J) : Prop where
  received : List.Forall₂ py.Reads (between StoredEvent.position f.log.rows start f.cursor)
    f.received
  start_le : start ≤ f.cursor
  placed : f.cursor = start ∨ ∃ r ∈ f.log.rows, r.position = f.cursor

variable {py}

theorem EventTable.sorted (log : EventTable) :
    log.rows.Pairwise fun r r' => r.position < r'.position :=
  log.increasing.imp fun h => Int.ofNat_lt.mpr h

/-- New rows stand behind the cursor. -/
theorem Follower.Exact.grow {start : ℤ} {f : Follower J} (h : f.Exact py start)
    {log : EventTable} {new : List StoredEvent} (hrows : log.rows = f.log.rows ++ new) :
    ({ f with log := log } : Follower J).Exact py start where
  received := by
    change List.Forall₂ py.Reads (between StoredEvent.position log.rows start f.cursor) f.received
    rw [hrows]
    obtain hstart | ⟨r,hr,hcursor⟩ := h.placed
    · have hnone := h.received
      rw [hstart, between_self] at hnone ⊢
      exact hnone
    · rw [between_append]
      · exact h.received
      · intro r' hr'
        rw [← hcursor]
        have hsorted := log.sorted
        rw [hrows] at hsorted
        exact (List.pairwise_append.mp hsorted).2.2 r hr r' hr'
  start_le := h.start_le
  placed := by
    refine h.placed.imp id fun hplaced => ?_
    obtain ⟨r,hr,hcursor⟩ := hplaced
    refine ⟨r,?_,hcursor⟩
    change r ∈ log.rows
    rw [hrows]
    exact List.mem_append_left new hr

namespace EventTable

/-- What `append` leaves. -/
theorem append_rows (now : ℚ) (gap : ℕ) (eventId : EventId) (eventType : String) (payload : J)
    (source : ClusterId) (log : EventTable) :
    ∃ new, (log.append py now gap eventId eventType payload source).1.rows = log.rows ++ new := by
  rw [append]
  cases htext : (if (py.get payload).isSome then py.dumps payload else none) with
  | none => exact ⟨[],(List.append_nil _).symm⟩
  | some text =>
    dsimp only
    cases hins : insert gap ⟨eventId,.number now,eventType,text,source⟩
        ({ stored := log } : Connection EventTable).current with
    | none =>
      rw [Connection.execute_of_none hins]
      exact ⟨[],(List.append_nil _).symm⟩
    | some log' =>
      rw [Connection.execute_of_some hins]
      exact ⟨_,insert_some hins⟩

/-- A page is the beginning of what lies above the cursor. -/
theorem page_begins (sinceSeq limit : ℤ) (log : EventTable) :
    log.page sinceSeq limit <+: above StoredEvent.position log.rows sinceSeq := by
  rw [page]
  by_cases hneg : limit < 0
  · rw [if_pos hneg]
    exact List.prefix_refl _
  · rw [if_neg hneg]
    exact List.take_prefix _ _

/-- A page below its limit is all that lies above the cursor. -/
theorem page_of_lt {sinceSeq limit : ℤ} {log : EventTable}
    (h : ((log.page sinceSeq limit).length : ℤ) < limit) :
    log.page sinceSeq limit = above StoredEvent.position log.rows sinceSeq := by
  rw [page] at h ⊢
  by_cases hneg : limit < 0
  · rw [if_pos hneg]
    rfl
  · rw [if_neg hneg] at h ⊢
    rw [List.length_take] at h
    exact List.take_of_length_le (by omega)

theorem replay_reads {sinceSeq limit : ℤ} {log : EventTable} {events : List (ReplayedEvent J)}
    (h : log.replay py sinceSeq limit = some events) :
    List.Forall₂ py.Reads (log.page sinceSeq limit) events := by
  rw [replay] at h
  split at h
  · exact forall₂_of_mapM h
  · cases h

end EventTable

theorem PyJson.Reads.position {r : StoredEvent} {m : ReplayedEvent J} (h : py.Reads r m) :
    r.position = m.position :=
  congrArg Nat.cast (py.seq_event h).1.symm

/-- Where the reader stands after a page. -/
theorem endOf_replay {c limit : ℤ} {log : EventTable} {events : List (ReplayedEvent J)}
    (h : log.replay py c limit = some events) :
    endOf ReplayedEvent.position c events =
      endOf StoredEvent.position c (log.page c limit) :=
  (endOf_congr (map_eq_of_forall₂ (EventTable.replay_reads h)
    fun _ _ hread => hread.position)).symm

namespace Follower.Exact
variable {start : ℤ} {f : Follower J}

theorem replay (h : f.Exact py start) (limit : ℤ) :
    (f.step py (.replay limit)).Exact py start := by
  rw [Follower.step]
  cases hpage : f.log.replay py f.cursor limit with
  | none => exact h
  | some events =>
    have hbegin := f.log.page_begins f.cursor limit
    have hend := endOf_replay hpage
    refine ⟨?_,?_,?_⟩
    · change List.Forall₂ py.Reads (between StoredEvent.position f.log.rows start
        (endOf ReplayedEvent.position f.cursor events)) (f.received ++ events)
      rw [hend, between_endOf f.log.sorted h.start_le hbegin]
      exact List.rel_append h.received (EventTable.replay_reads hpage)
    · change start ≤ endOf ReplayedEvent.position f.cursor events
      rw [hend]
      exact h.start_le.trans (le_endOf fun r hr => (mem_above.mp (hbegin.subset hr)).2)
    · change endOf ReplayedEvent.position f.cursor events = start ∨
        ∃ r ∈ f.log.rows, r.position = endOf ReplayedEvent.position f.cursor events
      rw [hend]
      obtain ⟨_,he⟩ | ⟨r,hr,he⟩ :=
        endOf_eq StoredEvent.position f.cursor (f.log.page f.cursor limit)
      · rw [he]
        exact h.placed
      · exact Or.inr ⟨r,(mem_above.mp (hbegin.subset hr)).1,he.symm⟩

theorem step (h : f.Exact py start) (e : FollowerEvent J) : (f.step py e).Exact py start := by
  cases e with
  | append now gap eventId eventType payload source =>
    obtain ⟨new,hrows⟩ := f.log.append_rows now gap eventId eventType payload source
    exact h.grow hrows
  | merge commits arrivals =>
    obtain ⟨new,hrows⟩ := EventTable.mergeEvents_rows py commits arrivals f.log
    exact h.grow hrows
  | replay limit => exact h.replay limit

/-- What was received, in order and without repetition. -/
theorem sorted (h : f.Exact py start) :
    f.received.Pairwise fun m m' => m.seq < m'.seq := by
  have hmap := map_eq_of_forall₂ h.received (g := fun m => m.seq) fun _ _ hread =>
    (py.seq_event hread).1.symm
  have hrows : ((between StoredEvent.position f.log.rows start f.cursor).map
      fun r => r.seq).Pairwise (· < ·) :=
    List.pairwise_map.mpr (f.log.increasing.sublist List.filter_sublist)
  rw [hmap] at hrows
  exact List.pairwise_map.mp hrows

theorem nodup (h : f.Exact py start) : (f.received.map fun m => m.eventId).Nodup := by
  have hmap := map_eq_of_forall₂ h.received (g := fun m => m.eventId) fun _ _ hread =>
    (py.seq_event hread).2.symm
  rw [← hmap]
  exact f.log.unique.sublist (List.filter_sublist.map _)

/-- After a page below its limit nothing is missing. -/
theorem complete (h : f.Exact py start) {limit : ℤ} {events : List (ReplayedEvent J)}
    (hpage : f.log.replay py f.cursor limit = some events)
    (hlen : (events.length : ℤ) < limit) :
    List.Forall₂ py.Reads (above StoredEvent.position f.log.rows start)
      (f.step py (.replay limit)).received := by
  have hreads := EventTable.replay_reads hpage
  have hall := EventTable.page_of_lt (hreads.length_eq ▸ hlen)
  have hafter := (h.replay limit).received
  rw [Follower.step, hpage] at hafter ⊢
  change List.Forall₂ py.Reads (between StoredEvent.position f.log.rows start
    (endOf ReplayedEvent.position f.cursor events)) (f.received ++ events) at hafter
  rw [endOf_replay hpage, hall, between_endOf_above f.log.sorted h.start_le] at hafter
  exact hafter

end Follower.Exact

/-- A reader that pages through a log from any cursor receives events in increasing order,
none of them twice, all of them events of rows above that cursor, and after a page below its limit
all that the log then has there; whatever is appended and merged in between. -/
theorem replay_paging_exact (py : PyJson J) (log : EventTable) (start : ℤ)
    (events : List (FollowerEvent J)) :
    let f := run (Follower.step py) ⟨log,start,[]⟩ events
    f.received.Pairwise (fun m m' => m.seq < m'.seq) ∧
    (f.received.map fun m => m.eventId).Nodup ∧
    (∀ m ∈ f.received, ∃ r ∈ f.log.rows, start < r.seq ∧ py.event r = some m) ∧
    ∀ limit page, f.log.replay py f.cursor limit = some page → (page.length : ℤ) < limit →
      ∀ r ∈ f.log.rows, start < r.seq →
        ∃ m ∈ (f.step py (.replay limit)).received, py.event r = some m := by
  have hinit : (⟨log,start,[]⟩ : Follower J).Exact py start := by
    refine ⟨?_,le_rfl,Or.inl rfl⟩
    rw [between_self]
    exact List.Forall₂.nil
  have hstep : ∀ (f : Follower J) e, f.Exact py start → (f.step py e).Exact py start :=
    fun f e h => h.step e
  have hexact := run_always hstep hinit events
  refine ⟨hexact.sorted,hexact.nodup,?_,?_⟩
  · intro m hm
    obtain ⟨r,hr,hread⟩ := (exists_of_forall₂ hexact.received).2 m hm
    obtain ⟨hmem,hstart,_⟩ := mem_between.mp hr
    exact ⟨r,hmem,hstart,hread⟩
  · intro limit page hpage hlen r hr hstart
    exact (exists_of_forall₂ (hexact.complete hpage hlen)).1 r (mem_above.mpr ⟨hr,hstart⟩)

end Arsonist.DistributedQueue
