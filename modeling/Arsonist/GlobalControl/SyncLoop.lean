import Arsonist.GlobalControl.Replication
import Arsonist.Library.Runs

/-! The changes that a replicator sends: a thread takes the whole list of pending changes and hands
it to a callback; if this raises, the batch goes back in front of what has come in between. -/
namespace Arsonist.GlobalControl
open Arsonist.Library

/-- What the callback is given. -/
structure SyncPayload (V : Type*) where
  sourceRegion : String
  ts : ℚ
  changes : List (Change V)

/-- The replicator, the payload of a callback that has not returned, and the payloads of those that
have returned. -/
structure SyncLoop (V : Type*) where
  replicator : StateReplicator V
  calling : Option (SyncPayload V) := none
  delivered : List (SyncPayload V) := []

/-- Changes are enqueued at any time, also while the callback runs. -/
inductive SyncEvent (V : Type*)
  | enqueueChange (ns key : String) (value : V) (version : ℤ) (ts : ℚ)
  | take (ts : ℚ)
  | called (ok : Bool)

namespace StateReplicator
variable {V : Type*} (r : StateReplicator V)

/-- The record of a change that is enqueued. -/
def change (ns key : String) (value : V) (version : ℤ) (ts : ℚ) : Change V :=
  { ns := some ns, key := some key, value := some value, version := some version,
    region := some r.localRegionId, ts := some ts }

def enqueueChange (ns key : String) (value : V) (version : ℤ) (ts : ℚ) : StateReplicator V :=
  { r with pendingChanges := r.pendingChanges ++ [r.change ns key value version ts] }

/-- The first locked section of `_sync_tick`. -/
def takePending : StateReplicator V × List (Change V) :=
  ({ r with pendingChanges := [] },r.pendingChanges)

/-- The second one, when the callback has raised. -/
def requeue (batch : List (Change V)) : StateReplicator V :=
  { r with pendingChanges := batch ++ r.pendingChanges }

end StateReplicator

namespace SyncLoop
variable {V : Type*} (s : SyncLoop V)

/-- The changes of the payload, if there is one. -/
def changesOf (payload : Option (SyncPayload V)) : List (Change V) :=
  (payload.map SyncPayload.changes).getD []

/-- One thread runs the ticks: it takes no batch while the callback has another. -/
def exec : SyncEvent V → SyncLoop V
  | .enqueueChange ns key value version ts =>
    { s with replicator := s.replicator.enqueueChange ns key value version ts }
  | .take ts =>
    match s.calling with
    | some _ => s
    | none =>
      let r := s.replicator.takePending.1
      let batch := s.replicator.takePending.2
      if batch ≠ [] ∧ s.replicator.onSync then
        { s with replicator := r, calling := some ⟨s.replicator.localRegionId,ts,batch⟩ }
      else { s with replicator := r }
  | .called ok =>
    match s.calling with
    | none => s
    | some payload =>
      if ok then
        { replicator := { s.replicator with syncCount := s.replicator.syncCount+1 }
          calling := none
          delivered := s.delivered ++ [payload] }
      else { s with replicator := s.replicator.requeue payload.changes, calling := none }

/-- What was delivered, what is being delivered and what is pending, in this order. -/
def all : List (Change V) :=
  s.delivered.flatMap SyncPayload.changes ++ changesOf s.calling ++ s.replicator.pendingChanges

/-- The changes that are enqueued in a run, in order. -/
def enqueued (region : String) (events : List (SyncEvent V)) : List (Change V) :=
  events.filterMap fun
    | .enqueueChange ns key value version ts =>
      some (StateReplicator.change { localRegionId := region } ns key value version ts)
    | _ => none

variable {s}

/-- A step keeps everything in its place, and a change that is enqueued comes last. -/
theorem all_exec (hsync : s.replicator.onSync) (e : SyncEvent V) :
    (s.exec e).all = s.all ++ enqueued s.replicator.localRegionId [e] := by
  cases e with
  | enqueueChange ns key value version ts => exact (List.append_assoc _ _ _).symm
  | take ts =>
    have hnone : enqueued s.replicator.localRegionId [SyncEvent.take (V := V) ts] = [] := rfl
    rw [exec, hnone, List.append_nil]
    cases hcalling : s.calling with
    | some payload => rfl
    | none =>
      by_cases hbatch : s.replicator.pendingChanges = []
      · simp [all, changesOf, StateReplicator.takePending, hcalling, hbatch]
      · simp [all, changesOf, StateReplicator.takePending, hcalling, hbatch, hsync]
  | called ok =>
    have hnone : enqueued s.replicator.localRegionId [SyncEvent.called (V := V) ok] = [] := rfl
    rw [exec, hnone, List.append_nil]
    cases hcalling : s.calling with
    | none => rfl
    | some payload =>
      cases ok with
      | true => simp [all, changesOf, hcalling]
      | false => simp [all, changesOf, StateReplicator.requeue, hcalling]

/-- The callback stays configured, and the region its own. -/
theorem config_exec (e : SyncEvent V) : (s.exec e).replicator.onSync = s.replicator.onSync ∧
    (s.exec e).replicator.localRegionId = s.replicator.localRegionId := by
  cases e with
  | enqueueChange ns key value version ts => exact ⟨rfl,rfl⟩
  | take ts =>
    rw [exec]
    cases s.calling with
    | some payload => exact ⟨rfl,rfl⟩
    | none =>
      dsimp only
      split_ifs <;> exact ⟨rfl,rfl⟩
  | called ok =>
    rw [exec]
    cases s.calling with
    | none => exact ⟨rfl,rfl⟩
    | some payload => cases ok <;> exact ⟨rfl,rfl⟩

theorem all_run (hsync : s.replicator.onSync) (events : List (SyncEvent V)) :
    (run exec s events).all = s.all ++ enqueued s.replicator.localRegionId events := by
  induction events generalizing s with
  | nil => exact (List.append_nil _).symm
  | cons e events ih =>
    obtain ⟨hsync',hregion⟩ := config_exec (s := s) e
    have hcons : enqueued s.replicator.localRegionId (e :: events) =
        enqueued s.replicator.localRegionId [e] ++
          enqueued s.replicator.localRegionId events := by
      rw [enqueued, enqueued, enqueued, ← List.filterMap_append, List.singleton_append]
    rw [run_cons, ih (hsync'.trans hsync), all_exec hsync, hregion, hcons, List.append_assoc]

end SyncLoop
end Arsonist.GlobalControl
