import Arsonist.Library.Keyed
import Arsonist.Library.LostUpdates

/-! Replicas of models (`replication/model_replication.py`). A call that changes one reads its record
under the lock, and writes the whole record back under the lock later on. -/
namespace Arsonist.Replication
open Arsonist.Library

inductive ReplicationTier | hot | warm | cold
  deriving DecidableEq

inductive ReplicationState | pending | inProgress | completed | failed
  deriving DecidableEq

def ReplicationState.value : ReplicationState → String
  | .pending => "pending"
  | .inProgress => "in_progress"
  | .completed => "completed"
  | .failed => "failed"

structure ModelReplica where
  modelId : String
  regionId : String
  tier : ReplicationTier := .warm
  state : ReplicationState := .pending
  sizeGb : ℚ := 0
  requestFrequency : ℚ := 0
  lastAccessed : ℚ := 0
  replicatedAt : ℚ := 0
  version : ℤ := 1
  deriving DecidableEq

/-- A row of `model_replicas`. -/
structure ReplicaRow where
  replica : ModelReplica
  updatedAt : ℚ
  deriving DecidableEq

instance : Keyed ReplicaRow (String × String) :=
  ⟨fun row => (row.replica.modelId,row.replica.regionId)⟩

/-- A row of `replication_events`. -/
structure ReplicationEvent where
  ts : ℚ
  event : String
  details : List (String × String)
  deriving DecidableEq

structure ModelReplicationManager where
  replicas : Table ReplicaRow := Table.empty
  events : List ReplicationEvent := []
  failureCount : ℕ := 0

/-- The two methods that change a replica. -/
inductive ReplicaCall
  | updateReplicaState (modelId regionId : String) (state : ReplicationState)
  | recordAccess (modelId regionId : String)
  deriving DecidableEq

/-- What a call reads from the clock: the time of the access, and that of the row or event. -/
structure ClockReads where
  accessed : ℚ := 0
  ts : ℚ := 0

namespace ReplicaCall

def key : ReplicaCall → String × String
  | .updateReplicaState modelId regionId _ => (modelId,regionId)
  | .recordAccess modelId regionId => (modelId,regionId)

/-- What a call makes of its copy. -/
def change (clock : ClockReads) (replica : ModelReplica) : ReplicaCall → ModelReplica
  | .updateReplicaState _ _ state => { replica with state := state }
  | .recordAccess _ _ =>
    { replica with
      requestFrequency := replica.requestFrequency+1
      lastAccessed := clock.accessed }

def isAccess : ReplicaCall → Bool
  | .updateReplicaState _ _ _ => false
  | .recordAccess _ _ => true

end ReplicaCall

/-- Where a call stands: the next thing it does, with the copy that it has read. -/
inductive ReplicaTask
  | reading (call : ReplicaCall)
  | writing (call : ReplicaCall) (replica : ModelReplica)
  | reporting (modelId regionId : String) (state : ReplicationState)
  | done
  deriving DecidableEq

namespace ModelReplicationManager

/-- `get_replica`. -/
def getReplica (m : ModelReplicationManager) (key : String × String) : Option ModelReplica :=
  (m.replicas.get? key).map ReplicaRow.replica

/-- The `UPDATE` of a row. Without a row it does nothing. -/
def updateRow (m : ModelReplicationManager) (key : String × String) (replica : ModelReplica)
    (ts : ℚ) : ModelReplicationManager :=
  if (m.replicas.get? key).isSome then { m with replicas := m.replicas.put ⟨replica,ts⟩ } else m

/-- `_emit_event`. -/
def emitEvent (m : ModelReplicationManager) (ts : ℚ) (event : String)
    (details : List (String × String)) : ModelReplicationManager :=
  { m with events := m.events ++ [⟨ts,event,details⟩] }

/-- The steps of `update_replica_state` and `record_access`. -/
def next (m : ModelReplicationManager) : ReplicaTask → ClockReads →
    ModelReplicationManager × ReplicaTask
  | .reading call, _ =>
    match m.getReplica call.key with
    | none => (m,.done)
    | some replica => (m,.writing call replica)
  | .writing call replica, clock =>
    let m := m.updateRow call.key (call.change clock replica) clock.ts
    match call with
    | .updateReplicaState modelId regionId state => (m,.reporting modelId regionId state)
    | .recordAccess _ _ => (m,.done)
  | .reporting modelId regionId state, clock =>
    let m := if state = .failed then { m with failureCount := m.failureCount+1 } else m
    (m.emitEvent clock.ts "replica_state_changed"
      [("model_id",modelId),("region_id",regionId),("state",state.value)],.done)
  | .done, _ => (m,.done)

def program : Program ModelReplicationManager ReplicaTask Empty ReplicaCall ClockReads where
  outside m _ := m
  enter := .reading
  next := next

end ModelReplicationManager

abbrev ReplicaEvent := PoolEvent Empty ReplicaCall ClockReads

/-- The writes of the calls come in order, for the calls of a kind. -/
def InOrder (P : ReplicaCall → Bool) (events : List ReplicaEvent) : Prop :=
  Along (Pool.step LostUpdates.program) (Pool.AtAdvance (LostUpdates.Orderly P)) ⟨{},[]⟩ events

instance (P : ReplicaCall → Bool) (events : List ReplicaEvent) : Decidable (InOrder P events) :=
  inferInstanceAs (Decidable (Along _ _ _ _))

section Simulation
variable {first : ModelReplica} {state : ReplicationState} {included : List ReplicaCall}
  {replica : ModelReplica} {call : ReplicaCall}

/-- The call is on the replica, and sets the state if it sets any. -/
def Concerns (first : ModelReplica) (state : ReplicationState) (call : ReplicaCall) : Prop :=
  call = .recordAccess first.modelId first.regionId ∨
    call = .updateReplicaState first.modelId first.regionId state

/-- The record is what the first one is after some calls. -/
structure Shows (first : ModelReplica) (state : ReplicationState) (included : List ReplicaCall)
    (replica : ModelReplica) : Prop where
  modelId : replica.modelId = first.modelId
  regionId : replica.regionId = first.regionId
  requestFrequency : replica.requestFrequency =
    first.requestFrequency+included.countP ReplicaCall.isAccess
  state : replica.state =
    if included.countP (fun c => !c.isAccess) = 0 then first.state else state

theorem Concerns.key_eq (h : Concerns first state call) :
    call.key = (first.modelId,first.regionId) := by
  obtain rfl | rfl := h
  · rfl
  · rfl

theorem Shows.change (h : Shows first state included replica) (hcall : Concerns first state call)
    (clock : ClockReads) :
    Shows first state (included ++ [call]) (call.change clock replica) := by
  obtain rfl | rfl := hcall
  · refine ⟨h.modelId,h.regionId,?_,?_⟩
    · change replica.requestFrequency+1 = _
      rw [h.requestFrequency, List.countP_append]
      push_cast
      exact add_assoc _ _ _
    · rw [List.countP_append]
      exact h.state
  · refine ⟨h.modelId,h.regionId,?_,?_⟩
    · rw [List.countP_append]
      exact h.requestFrequency
    · rw [List.countP_append]
      exact (if_neg (Nat.succ_ne_zero _)).symm

/-- The row in the database and the value of the cell. -/
def SameValue (first : ModelReplica) (state : ReplicationState) (m : ModelReplicationManager)
    (cell : LostUpdates.Cell ReplicaCall) : Prop :=
  ∃ replica, m.getReplica (first.modelId,first.regionId) = some replica ∧
    Shows first state cell.included replica

/-- A call, and where it stands with its copy. -/
def SameTask (first : ModelReplica) (state : ReplicationState) :
    ReplicaTask → LostUpdates.Task ReplicaCall → Prop
  | .reading call, .reading call' => call = call' ∧ Concerns first state call
  | .writing call replica, .holding call' included _ =>
    call = call' ∧ Concerns first state call ∧ Shows first state included replica
  | .reporting _ _ _, .done => True
  | .done, .done => True
  | _, _ => False

theorem getReplica_updateRow {m : ModelReplicationManager} {old : ModelReplica}
    (h : m.getReplica (first.modelId,first.regionId) = some old)
    (hid : replica.modelId = first.modelId) (hregion : replica.regionId = first.regionId)
    (ts : ℚ) :
    (m.updateRow (first.modelId,first.regionId) replica ts).getReplica
      (first.modelId,first.regionId) = some replica := by
  obtain ⟨row,hrow,-⟩ := Option.map_eq_some_iff.mp h
  have hkey : (first.modelId,first.regionId) = Keyed.key (ReplicaRow.mk replica ts) := by
    rw [← hid, ← hregion]
    rfl
  rw [ModelReplicationManager.updateRow, hrow, Option.isSome_some, if_pos rfl,
    ModelReplicationManager.getReplica, Table.get?_put, if_pos hkey]
  rfl

theorem sameTask_next {m : ModelReplicationManager} {cell : LostUpdates.Cell ReplicaCall}
    {p : ReplicaTask} {q : LostUpdates.Task ReplicaCall} (clock : ClockReads)
    (h : SameValue first state m cell) (hpq : SameTask first state p q) :
    SameValue first state (m.next p clock).1 (LostUpdates.next cell q clock).1 ∧
      SameTask first state (m.next p clock).2 (LostUpdates.next cell q clock).2 := by
  obtain ⟨old,hold,hshows⟩ := h
  cases p with
  | reading call =>
    cases q with
    | reading call' =>
      obtain ⟨rfl,hcall⟩ := hpq
      rw [ModelReplicationManager.next, hcall.key_eq, hold]
      exact ⟨⟨old,hold,hshows⟩,rfl,hcall,hshows⟩
    | holding call' copy readAt => exact hpq.elim
    | done => exact hpq.elim
  | writing call replica =>
    cases q with
    | holding call' copy readAt =>
      obtain ⟨rfl,hcall,hcopy⟩ := hpq
      have hnew := hcopy.change hcall clock
      have hrow := getReplica_updateRow hold hnew.modelId hnew.regionId clock.ts
      have hkey := hcall.key_eq
      obtain rfl | rfl := hcall
      · exact ⟨⟨_,hrow,hnew⟩,trivial⟩
      · exact ⟨⟨_,hrow,hnew⟩,trivial⟩
    | reading call' => exact hpq.elim
    | done => exact hpq.elim
  | reporting modelId regionId reported =>
    cases q with
    | done =>
      refine ⟨⟨old,?_,hshows⟩,trivial⟩
      rw [ModelReplicationManager.next]
      split_ifs
      · exact hold
      · exact hold
    | reading call' => exact hpq.elim
    | holding call' copy readAt => exact hpq.elim
  | done =>
    cases q with
    | done => exact ⟨⟨old,hold,hshows⟩,trivial⟩
    | reading call' => exact hpq.elim
    | holding call' copy readAt => exact hpq.elim

/-- The database does what the cell does. -/
theorem simulates_run {m : ModelReplicationManager}
    (hfirst : m.getReplica (first.modelId,first.regionId) = some first)
    {events : List ReplicaEvent}
    (hcalls : ∀ c ∈ LostUpdates.started events, Concerns first state c) :
    Pool.Simulates (SameValue first state) (SameTask first state)
      (run (Pool.step ModelReplicationManager.program) ⟨m,[]⟩ events)
      (run (Pool.step LostUpdates.program) ⟨{},[]⟩ events) := by
  induction events using List.reverseRecOn with
  | nil => exact ⟨⟨first,hfirst,rfl,rfl,(add_zero _).symm,rfl⟩,List.Forall₂.nil⟩
  | append_singleton events e ih =>
    rw [LostUpdates.started, List.filterMap_append] at hcalls
    have hold := ih fun c hc => hcalls c (List.mem_append_left _ hc)
    rw [run_concat, run_concat]
    cases e with
    | outside e => exact e.elim
    | start call =>
      refine hold.start ⟨rfl,hcalls call ?_⟩
      exact List.mem_append_right _ List.mem_cons_self
    | advance i clock =>
      exact hold.advance (fun _ _ _ _ clock hm hpq => sameTask_next clock hm hpq) i clock

/-- Each access is counted and the state is set exactly if the value shows the effects of all
accesses, and either the one of the update too, or none where there is nothing to set. -/
theorem shows_all_iff {n : ℕ} (h : Shows first state included replica)
    (hupdate : included.countP (fun c => !c.isAccess) ≤ 1) :
    replica.requestFrequency = first.requestFrequency+n ∧ replica.state = state ↔
      (included.countP ReplicaCall.isAccess = n ∧ included.countP (fun c => !c.isAccess) = 1) ∨
        first.state = state ∧ included.countP ReplicaCall.isAccess = n ∧
          included.countP (fun c => !c.isAccess) = 0 := by
  rw [h.requestFrequency, h.state, add_right_inj, Nat.cast_inj]
  split_ifs with hnone
  · rw [hnone]
    simp only [zero_ne_one, and_false, false_or, and_true]
    exact and_comm
  · have hone : included.countP (fun c => !c.isAccess) = 1 := by omega
    simp only [hone, and_true, one_ne_zero, and_false, or_false]

end Simulation

/-- No access goes uncounted and the state is the new one exactly if no call has written between the
read and the write of another, or the state was the new one before, and so it is for the accesses
among themselves, one of which has read and not yet written when the update writes. -/
theorem no_update_lost_iff {m : ModelReplicationManager} {first : ModelReplica} {n : ℕ}
    {state : ReplicationState} {events : List ReplicaEvent}
    (hfirst : m.getReplica (first.modelId,first.regionId) = some first)
    (hcalls : (LostUpdates.started events).Perm
      (.updateReplicaState first.modelId first.regionId state ::
        List.replicate n (.recordAccess first.modelId first.regionId)))
    (hdone : ∀ p ∈ (run (Pool.step ModelReplicationManager.program) ⟨m,[]⟩ events).procs,
      p = .done) :
    (∃ replica, (run (Pool.step ModelReplicationManager.program) ⟨m,[]⟩ events).shared.getReplica
        (first.modelId,first.regionId) = some replica ∧
      replica.requestFrequency = first.requestFrequency+n ∧ replica.state = state) ↔
      InOrder (fun _ => true) events ∨
        first.state = state ∧ InOrder ReplicaCall.isAccess events := by
  have hconcerns : ∀ c ∈ LostUpdates.started events, Concerns first state c := by
    intro c hc
    obtain rfl | hc := List.mem_cons.mp (hcalls.subset hc)
    · exact Or.inr rfl
    · exact Or.inl (List.eq_of_mem_replicate hc)
  obtain ⟨⟨replica,hreplica,hshows⟩,htasks⟩ := simulates_run hfirst hconcerns
  have hghost : ∀ q ∈ (run (Pool.step LostUpdates.program)
      (⟨{},[]⟩ : Pool (LostUpdates.Cell ReplicaCall) _) events).procs, q = .done := by
    intro q hq
    obtain ⟨i,hi⟩ := List.mem_iff_getElem?.mp hq
    obtain ⟨-,hnone⟩ | ⟨p,q',hp,hq',hpq⟩ := Pool.forall₂_getElem? htasks i
    · rw [hi] at hnone
      cases hnone
    · obtain rfl := Option.some.inj (hi.symm.trans hq')
      rw [hdone p (List.mem_of_getElem? hp)] at hpq
      cases q with
      | done => rfl
      | reading call => exact hpq.elim
      | holding call copy readAt => exact hpq.elim
  have hlog := fun P : ReplicaCall → Bool =>
    (LostUpdates.countP_log_of_done hghost P).trans (hcalls.countP_eq P)
  have hle := fun P : ReplicaCall → Bool => LostUpdates.countP_included_le P events
  have haccess : (run (Pool.step LostUpdates.program) (⟨{},[]⟩ : Pool _ _) events).shared.log.countP
      ReplicaCall.isAccess = n := by
    rw [hlog, List.countP_cons, List.countP_replicate]
    rfl
  have hupdate : (run (Pool.step LostUpdates.program) (⟨{},[]⟩ : Pool _ _) events).shared.log.countP
      (fun c => !c.isAccess) = 1 := by
    rw [hlog, List.countP_cons, List.countP_replicate]
    rfl
  have hbound := hle fun c => !c.isAccess
  rw [hupdate] at hbound
  rw [InOrder, InOrder, ← LostUpdates.whole_iff hghost, ← LostUpdates.whole_iff hghost,
    LostUpdates.whole_true_iff ReplicaCall.isAccess hle, LostUpdates.whole_iff_countP, haccess,
    hupdate, ← shows_all_iff hshows hbound]
  constructor
  · rintro ⟨other,hother,hshown⟩
    rwa [Option.some.inj (hreplica.symm.trans hother)]
  · intro hshown
    exact ⟨replica,hreplica,hshown⟩

/-- A replica of which one access is counted while its state is set. -/
def overlapping : List ReplicaEvent :=
  [.start (.recordAccess "m" "eu"),.start (.updateReplicaState "m" "eu" .completed),
    .advance 0 {},.advance 1 {},.advance 0 { accessed := 7, ts := 7 },.advance 1 { ts := 8 },
    .advance 1 { ts := 8 }]

def pendingReplica : ModelReplicationManager where
  replicas := Table.empty.put ⟨{ modelId := "m", regionId := "eu" },1⟩

theorem no_update_lost_iff_overlapping :
    pendingReplica.getReplica ("m","eu") = some { modelId := "m", regionId := "eu" } ∧
      ((∃ replica, (run (Pool.step ModelReplicationManager.program) ⟨pendingReplica,[]⟩
          overlapping).shared.getReplica ("m","eu") = some replica ∧
        replica.requestFrequency = 0+(1 : ℕ) ∧ replica.state = .completed) ↔
        InOrder (fun _ => true) overlapping ∨
          ReplicationState.pending = .completed ∧ InOrder ReplicaCall.isAccess overlapping) := by
  have hfirst : pendingReplica.getReplica ("m","eu") =
      some { modelId := "m", regionId := "eu" } := by decide +kernel
  have hcalls : (LostUpdates.started overlapping).Perm
      (.updateReplicaState "m" "eu" .completed :: List.replicate 1 (.recordAccess "m" "eu")) :=
    List.Perm.swap _ _ _
  have hdone : ∀ p ∈ (run (Pool.step ModelReplicationManager.program) ⟨pendingReplica,[]⟩
      overlapping).procs, p = .done := by decide +kernel
  exact ⟨hfirst,@no_update_lost_iff pendingReplica { modelId := "m", regionId := "eu" } 1 .completed
    overlapping hfirst hcalls hdone⟩

/-- The access is lost. -/
theorem update_lost_overlapping :
    ¬ ∀ (m : ModelReplicationManager) (first : ModelReplica) (n : ℕ) (state : ReplicationState)
      (events : List ReplicaEvent),
      m.getReplica (first.modelId,first.regionId) = some first →
      (LostUpdates.started events).Perm
        (.updateReplicaState first.modelId first.regionId state ::
          List.replicate n (.recordAccess first.modelId first.regionId)) →
      (∀ p ∈ (run (Pool.step ModelReplicationManager.program) ⟨m,[]⟩ events).procs,
        p = .done) →
      ∃ replica, (run (Pool.step ModelReplicationManager.program) ⟨m,[]⟩
          events).shared.getReplica (first.modelId,first.regionId) = some replica ∧
        replica.requestFrequency = first.requestFrequency+n ∧ replica.state = state := by
  intro h
  obtain ⟨replica,hreplica,hfrequency,-⟩ := h pendingReplica { modelId := "m", regionId := "eu" } 1
    .completed overlapping (by decide +kernel) (List.Perm.swap _ _ _) (by decide +kernel)
  have hend : (run (Pool.step ModelReplicationManager.program) ⟨pendingReplica,[]⟩
      overlapping).shared.getReplica ("m","eu") =
        some { modelId := "m", regionId := "eu", state := .completed } := by decide +kernel
  obtain rfl := Option.some.inj (hend.symm.trans hreplica)
  revert hfrequency
  norm_num

end Arsonist.Replication
