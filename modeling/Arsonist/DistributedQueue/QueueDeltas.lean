import Arsonist.DistributedQueue.ReplicatedQueue
import Arsonist.Library.Runs

/-! What replicas make of the deltas that they apply. A replica stores whatever comes last, so
that the order of arrival decides wherever two deltas disagree about a job. -/
namespace Arsonist.DistributedQueue
open Arsonist.Library Arsonist.Shared Arsonist.Mesh Json

/-- A job that is over. -/
def Terminal (state : String) : Prop := state = "completed" ∨ state = "failed"

instance (state : String) : Decidable (Terminal state) := inferInstanceAs (Decidable (_ ∨ _))

/-- What arrives is behind what is stored: older, or not over where the stored job is. -/
def Stale (row : RepJob) (st : ReplicatedJobState) : Prop :=
  st.updatedAt < row.state.updatedAt ∨ Terminal row.state.state ∧ ¬ Terminal st.state

instance (row : RepJob) (st : ReplicatedJobState) : Decidable (Stale row st) :=
  inferInstanceAs (Decidable (_ ∨ _))

variable (leaseSec : ℚ)

/-- The row that `upsert` makes of a state. -/
def freshRow (now : ℚ) (st : ReplicatedJobState) : RepJob :=
  ⟨{ st with updatedAt := now },now+leaseSec⟩

/-- At an element's turn: if it is stale, the stored record stays as it is. -/
def KeepsNewer (s : ReplicatedQueue × ℕ) (e : Incoming) : Prop :=
  ∀ st row, e.state? = some st → s.1.get? st.jobId = some row → Stale row st →
    (applyState leaseSec s e).1.get? st.jobId = some row

/-- At an element's turn: it is not stale, or it would be stored as what is stored already. -/
def NotStale (s : ReplicatedQueue × ℕ) (e : Incoming) : Prop :=
  ∀ st row, e.state? = some st → s.1.get? st.jobId = some row → Stale row st →
    row = freshRow leaseSec e.now st

theorem keepsNewer_iff (s : ReplicatedQueue × ℕ) (e : Incoming) :
    KeepsNewer leaseSec s e ↔ NotStale leaseSec s e := by
  refine forall₅_congr fun st row hst hrow _ => ?_
  have hget : (applyState leaseSec s e).1.get? st.jobId = some (freshRow leaseSec e.now st) := by
    rw [applyState, hst]
    change (s.1.put _).get? st.jobId = _
    rw [Table.get?_put]
    exact if_pos rfl
  rw [hget, Option.some_inj]
  exact eq_comm

/-! ### The order of the deltas -/

/-- The state and the owner that a replica has for a job. -/
def standing (rq : ReplicatedQueue) (id : JobId) : Option (String × ClusterId) :=
  (rq.get? id).map fun row => (row.state.state,row.state.ownerClusterId)

/-- What a state says about a job. -/
def ReplicatedJobState.wordOn (id : JobId) (st : ReplicatedJobState) : Option (String × ClusterId) :=
  if st.jobId = id then some (st.state,st.ownerClusterId) else none

/-- What an element says about a job. -/
def wordOf (id : JobId) (body : Json) : Option (String × ClusterId) :=
  ((asObject body).bind (ReplicatedJobState.ofJson "")).bind (·.wordOn id)

/-- The token that a replica draws does not matter. -/
theorem wordOn_ofJson (token : String) (id : JobId) (o : Json.Object) :
    (ReplicatedJobState.ofJson token o).bind (·.wordOn id) =
      (ReplicatedJobState.ofJson "" o).bind (·.wordOn id) := by
  simp only [ReplicatedJobState.ofJson, Option.bind_eq_bind, Option.bind_assoc, Option.bind_some,
    ReplicatedJobState.wordOn]
  cases h : o.lookup "claim_token" with
  | none => simp [defaulted, h]
  | some v => simp [defaulted, h]

theorem wordOf_body (e : Incoming) (id : JobId) : e.state?.bind (·.wordOn id) = wordOf id e.body := by
  rw [Incoming.state?, wordOf, Option.bind_assoc, Option.bind_assoc]
  exact Option.bind_congr fun o _ => wordOn_ofJson e.token id o

/-- What the last element about the job says. -/
def lastWord (id : JobId) (bodies : List Json) : Option (String × ClusterId) :=
  (bodies.filterMap (wordOf id)).getLast?

theorem lastWord_append (id : JobId) (bs cs : List Json) :
    lastWord id (bs ++ cs) = (lastWord id cs).or (lastWord id bs) := by
  rw [lastWord, List.filterMap_append, List.getLast?_append]
  rfl

/-- The rows that the elements of a delta become. -/
def Incoming.row? (e : Incoming) : Option RepJob := e.state?.map (freshRow leaseSec e.now)

theorem applyQueueDelta_eq (rq : ReplicatedQueue) (jobs : List Incoming) :
    (applyQueueDelta leaseSec rq jobs).1 =
      (jobs.filterMap (Incoming.row? leaseSec)).foldl Table.put rq := by
  have hfold : ∀ s : ReplicatedQueue × ℕ, (jobs.foldl (applyState leaseSec) s).1 =
      (jobs.filterMap (Incoming.row? leaseSec)).foldl Table.put s.1 := by
    induction jobs with
    | nil => exact fun s => rfl
    | cons e jobs ih =>
      intro s
      rw [List.foldl_cons, ih, List.filterMap_cons, applyState, Incoming.row?]
      cases e.state? <;> rfl
  exact hfold _

/-- A replica goes by the last word on a job. -/
theorem standing_applyQueueDelta (rq : ReplicatedQueue) (jobs : List Incoming) (id : JobId) :
    standing (applyQueueDelta leaseSec rq jobs).1 id =
      (lastWord id (jobs.map Incoming.body)).or (standing rq id) := by
  have hlast : (((jobs.filterMap (Incoming.row? leaseSec)).filter fun row =>
      Keyed.key row = id).getLast?).map (fun row => (row.state.state,row.state.ownerClusterId)) =
      lastWord id (jobs.map Incoming.body) := by
    rw [lastWord, ← List.getLast?_map, List.filterMap_map]
    congr 1
    induction jobs with
    | nil => rfl
    | cons e jobs ih =>
      have he := wordOf_body e id
      rw [List.filterMap_cons, List.filterMap_cons, Function.comp_apply, ← he, Incoming.row?]
      cases e.state? with
      | none => exact ih
      | some st =>
        rw [Option.map_some, Option.bind_some, ReplicatedJobState.wordOn, List.filter_cons]
        by_cases hid : st.jobId = id
        · simpa [freshRow, hid] using ih
        · simpa [freshRow, hid] using ih
  rw [standing, applyQueueDelta_eq, Table.get?_foldl_put_last, Option.map_or, hlast]
  rfl

/-- A replica takes up the deltas of a set in some order, each of them once or more often. -/
def Delivers (deltas : List (List Json)) (order : List (List Incoming)) : Prop :=
  ∀ d, d ∈ order.map (fun jobs => jobs.map Incoming.body) ↔ d ∈ deltas

/-- What a replica holds after the deltas of an order. -/
def applyAll (rq : ReplicatedQueue) (order : List (List Incoming)) : ReplicatedQueue :=
  order.foldl (fun rq jobs => (applyQueueDelta leaseSec rq jobs).1) rq

/-- The deltas of the set have the same last word on every job that they share. -/
def Unanimous (deltas : List (List Json)) : Prop :=
  ∀ d ∈ deltas, ∀ d' ∈ deltas, ∀ id word word', lastWord id d = some word →
    lastWord id d' = some word' → word = word'

theorem applyAll_append (rq : ReplicatedQueue) (o o' : List (List Incoming)) :
    applyAll leaseSec rq (o ++ o') = applyAll leaseSec (applyAll leaseSec rq o) o' :=
  List.foldl_append

theorem standing_applyAll (rq : ReplicatedQueue) (order : List (List Incoming)) (id : JobId) :
    standing (applyAll leaseSec rq order) id =
      (lastWord id (order.map fun jobs => jobs.map Incoming.body).flatten).or (standing rq id) := by
  induction order using List.reverseRecOn with
  | nil => rfl
  | append_singleton order jobs ih =>
    rw [applyAll_append, List.map_append, List.flatten_append, lastWord_append, Option.or_assoc,
      ← ih]
    change standing (applyQueueDelta leaseSec _ jobs).1 id = _
    rw [standing_applyQueueDelta]
    simp

/-- The last word of several deltas is the last word of one of them. -/
theorem lastWord_flatten {id : JobId} (ds : List (List Json)) :
    (lastWord id ds.flatten = none ∧ ∀ d ∈ ds, lastWord id d = none) ∨
      ∃ d ∈ ds, ∃ word, lastWord id d = some word ∧ lastWord id ds.flatten = some word := by
  induction ds with
  | nil => exact Or.inl ⟨rfl,by simp⟩
  | cons d ds ih =>
    rw [List.flatten_cons, lastWord_append]
    obtain ⟨hnone,hall⟩ | ⟨d',hd',word,hword,hlast⟩ := ih
    · rw [hnone, Option.none_or]
      cases hd : lastWord id d with
      | none => exact Or.inl ⟨rfl,by simpa [hd] using hall⟩
      | some word => exact Or.inr ⟨d,List.mem_cons_self,word,hd,rfl⟩
    · rw [hlast]
      exact Or.inr ⟨d',List.mem_cons_of_mem d hd',word,hword,rfl⟩

/-- A delta as it is taken up at time zero. -/
def takenUp (d : List Json) : List Incoming := d.map fun body => ⟨body,0,""⟩

theorem body_takenUp (d : List Json) : (takenUp d).map Incoming.body = d := by
  rw [takenUp, List.map_map]
  exact List.map_id d

theorem delivers_takenUp {deltas : List (List Json)} {d : List Json} (hd : d ∈ deltas) :
    Delivers deltas ((deltas ++ [d]).map takenUp) := by
  intro c
  have hmap : ((deltas ++ [d]).map takenUp).map (fun jobs => jobs.map Incoming.body) =
      deltas ++ [d] := by
    rw [List.map_map]
    exact (List.map_congr_left fun e _ => body_takenUp e).trans (List.map_id _)
  rw [hmap, List.mem_append, List.mem_singleton]
  constructor
  · rintro (h | rfl)
    · exact h
    · exact hd
  · exact Or.inl

/-- Every two orders of the deltas lead to the same state and owner of every job exactly when the
deltas agree on the last word. -/
theorem sameEnd_iff (rq : ReplicatedQueue) (deltas : List (List Json)) :
    (∀ o o', Delivers deltas o → Delivers deltas o' → ∀ id,
      standing (applyAll leaseSec rq o) id = standing (applyAll leaseSec rq o') id) ↔
      Unanimous deltas := by
  constructor
  · intro h d hd d' hd' id word word' hword hword'
    have hend : ∀ e ∈ deltas, ∀ w, lastWord id e = some w →
        standing (applyAll leaseSec rq ((deltas ++ [e]).map takenUp)) id = some w := by
      intro e _ w hw
      rw [List.map_append, applyAll_append]
      change standing (applyQueueDelta leaseSec _ (takenUp e)).1 id = some w
      rw [standing_applyQueueDelta, body_takenUp, hw]
      rfl
    have heq := h _ _ (delivers_takenUp hd) (delivers_takenUp hd') id
    rw [hend d hd word hword, hend d' hd' word' hword'] at heq
    exact Option.some.inj heq
  · intro h o o' ho ho' id
    rw [standing_applyAll, standing_applyAll]
    rcases lastWord_flatten (o.map fun jobs => jobs.map Incoming.body) with
      ⟨hnone,hall⟩ | ⟨d,hd,word,hword,hlast⟩
    · rcases lastWord_flatten (o'.map fun jobs => jobs.map Incoming.body) with
        ⟨hnone',-⟩ | ⟨d',hd',word',hword',-⟩
      · rw [hnone, hnone']
      · have hsilent := hall d' ((ho d').mpr ((ho' d').mp hd'))
        rw [hword'] at hsilent
        cases hsilent
    · rcases lastWord_flatten (o'.map fun jobs => jobs.map Incoming.body) with
        ⟨-,hall'⟩ | ⟨d',hd',word',hword',hlast'⟩
      · have hsilent := hall' d ((ho' d).mpr ((ho d).mp hd))
        rw [hword] at hsilent
        cases hsilent
      · rw [hlast, hlast', h d ((ho d).mp hd) d' ((ho' d').mp hd') id word word' hword hword']

/-- Replicated jobs do not go backwards: in no order do the deltas of a set overwrite a record with
a stale one, and all orders end alike. -/
def GoesForward (rq : ReplicatedQueue) (deltas : List (List Json)) : Prop :=
  (∀ o, Delivers deltas o → Along (applyState leaseSec) (KeepsNewer leaseSec) (rq,0) o.flatten) ∧
    ∀ o o', Delivers deltas o → Delivers deltas o' → ∀ id,
      standing (applyAll leaseSec rq o) id = standing (applyAll leaseSec rq o') id

end Arsonist.DistributedQueue
