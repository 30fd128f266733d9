import Arsonist.Edge.EdgeScheduler
import Arsonist.Library.Steps
import Arsonist.Library.Sums

/-! The bookkeeping of the scheduler of edge nodes. The load of a node is the number of workloads
that run on it, and a workload that is not completed is queued or runs. -/
namespace Arsonist.Edge
open Arsonist.Library

/-- The id that a call submits. -/
def EdgeSchedulerCall.submitted : EdgeSchedulerCall → List String
  | .submit workload => [workload.workloadId]
  | _ => []

namespace EdgeScheduler
variable (s : EdgeScheduler)

/-- The id that a call completes. -/
def completedBy : EdgeSchedulerCall → List String
  | .complete now workloadId success =>
    if (s.complete now workloadId success).2.isSome then [workloadId] else []
  | _ => []

/-- The ids that a run of calls submits. -/
def submittedIn (calls : List EdgeSchedulerCall) : List String :=
  calls.flatMap EdgeSchedulerCall.submitted

/-- The ids that a run of calls completes. -/
def completedIn (calls : List EdgeSchedulerCall) : List String :=
  (steps exec s calls).flatMap fun x => x.1.completedBy x.2

def queuedIds : List String := s.queue.map EdgeWorkload.workloadId

def runningIds : List String := s.running.entries.map EdgeWorkload.workloadId

/-- How many workloads run on a node. -/
def runningOn (nodeId : String) : ℕ :=
  s.running.entries.countP fun wl => wl.assignedNode = nodeId

/-- Each workload is in one place, and each registered node has a counter with its load. -/
structure Booked (submitted completed : List String) : Prop where
  places : (s.queuedIds ++ s.runningIds ++ completed).Perm submitted
  load : ∀ nodeId, s.nodeCurrentLoad.get? nodeId =
    (s.nodeCapacity.get? nodeId).map fun _ => ⟨nodeId,s.runningOn nodeId⟩
  assigned : ∀ wl ∈ s.running.entries, (s.nodeCapacity.get? wl.assignedNode).isSome

variable {s} {submitted completed : List String}

theorem Booked.nodup (h : s.Booked submitted completed) (hn : submitted.Nodup) :
    (s.queuedIds ++ s.runningIds).Nodup :=
  (List.nodup_append.mp (h.places.nodup_iff.mpr hn)).1

/-- Nothing runs on a node that is not registered. -/
theorem Booked.runningOn_eq_zero (h : s.Booked submitted completed) {nodeId : String}
    (hnone : s.nodeCapacity.get? nodeId = none) : s.runningOn nodeId = 0 := by
  refine List.countP_eq_zero.mpr fun wl hwl hon => ?_
  have hsome := h.assigned wl hwl
  rw [of_decide_eq_true hon, hnone] at hsome
  cases hsome

/-- A quantity that tables can add up. -/
theorem runningOn_eq_sum (s : EdgeScheduler) (nodeId : String) :
    (s.runningOn nodeId : ℤ) =
      s.running.sum fun wl => if wl.assignedNode = nodeId then (1 : ℤ) else 0 := by
  rw [runningOn, Table.sum]
  induction s.running.entries with
  | nil => rfl
  | cons wl running ih =>
    rw [List.countP_cons, List.map_cons, List.sum_cons, ← ih, Nat.cast_add, add_comm]
    congr 1
    by_cases hon : wl.assignedNode = nodeId <;> simp [hon]

theorem Booked.registerNode (h : s.Booked submitted completed) (nodeId : String) (capacity : ℤ) :
    (s.registerNode nodeId capacity).Booked submitted completed := by
  have hget : ∀ k, (s.registerNode nodeId capacity).nodeCapacity.get? k =
      if k = nodeId then some ⟨nodeId,capacity⟩ else s.nodeCapacity.get? k :=
    Table.get?_put s.nodeCapacity ⟨nodeId,capacity⟩
  refine ⟨h.places,fun k => ?_,fun wl hwl => ?_⟩
  · have hload := h.load nodeId
    have hon : (s.registerNode nodeId capacity).runningOn k = s.runningOn k := rfl
    rw [hget, hon, EdgeScheduler.registerNode]
    cases hcapacity : s.nodeCapacity.get? nodeId with
    | some node =>
      rw [hcapacity, Option.map_some] at hload
      rw [hload]
      dsimp only
      split_ifs with hk
      · rw [hk]
        exact hload
      · exact h.load k
    | none =>
      rw [hcapacity, Option.map_none] at hload
      rw [hload]
      dsimp only
      rw [Table.get?_put, NodeCount.key_eq]
      split_ifs with hk
      · rw [hk, h.runningOn_eq_zero hcapacity]
        rfl
      · exact h.load k
  · rw [hget]
    split_ifs
    · rfl
    · exact h.assigned wl hwl

/-- The workloads that are put back are those that run on the node. -/
theorem entries_unregisterNode (s : EdgeScheduler) (nodeId : String) :
    (s.unregisterNode nodeId).1.running.entries =
      s.running.entries.filter fun wl => wl.assignedNode ≠ nodeId := by
  change (s.running.without (s.toRequeue nodeId)).entries = _
  rw [Table.entries_without]
  refine List.filter_congr fun wl hwl => decide_eq_decide.mpr (not_congr ?_)
  rw [toRequeue, List.map_map, List.mem_map]
  constructor
  · rintro ⟨other,hother,hkey⟩
    obtain ⟨hother,hon⟩ := List.mem_filter.mp hother
    have hget := Table.get?_of_mem hother
    change s.running.get? other.workloadId = _ at hget
    change other.workloadId = wl.workloadId at hkey
    rw [hkey] at hget
    have hsame : wl = other := Option.some.inj ((Table.get?_of_mem hwl).symm.trans hget)
    rw [hsame]
    exact of_decide_eq_true hon
  · exact fun hon => ⟨wl,List.mem_filter.mpr ⟨hwl,decide_eq_true hon⟩,rfl⟩

theorem Booked.unregisterNode (h : s.Booked submitted completed) (nodeId : String) :
    (s.unregisterNode nodeId).1.Booked submitted completed := by
  have hentries := entries_unregisterNode s nodeId
  refine ⟨List.Perm.trans (List.Perm.append_right _ ?_) h.places,fun k => ?_,fun wl hwl => ?_⟩
  · have hids : (s.toRequeue nodeId).map EdgeWorkload.workloadId =
        (s.running.entries.filter fun wl => wl.assignedNode = nodeId).map
          EdgeWorkload.workloadId := List.map_map
    have hparts := (List.filter_append_perm (fun wl => decide (wl.assignedNode = nodeId))
      s.running.entries).map EdgeWorkload.workloadId
    rw [List.map_append] at hparts
    rw [runningIds, hentries, queuedIds, queuedIds]
    change ((s.queue ++ s.toRequeue nodeId).map _ ++ _).Perm _
    rw [List.map_append, List.append_assoc, hids, runningIds]
    simp only [ne_eq, decide_not]
    exact List.Perm.append_left _ hparts
  · change (s.nodeCurrentLoad.erase nodeId).get? k =
      ((s.nodeCapacity.erase nodeId).get? k).map _
    rw [Table.get?_erase, Table.get?_erase]
    split_ifs with hk
    · rfl
    · have hon : (s.unregisterNode nodeId).1.runningOn k = s.runningOn k := by
        rw [runningOn, hentries, List.countP_filter, runningOn]
        refine List.countP_congr fun wl _ => ?_
        rw [Bool.and_eq_true, decide_eq_true_iff, decide_eq_true_iff]
        exact and_iff_left_of_imp fun hwl => hwl ▸ hk
      rw [hon]
      exact h.load k
  · rw [hentries] at hwl
    obtain ⟨hwl,hon⟩ := List.mem_filter.mp hwl
    change ((s.nodeCapacity.erase nodeId).get? _).isSome
    rw [Table.get?_erase, if_neg (of_decide_eq_true hon)]
    exact h.assigned wl hwl

theorem Booked.submit (h : s.Booked submitted completed) (workload : EdgeWorkload) :
    (s.submit workload).Booked (submitted ++ [workload.workloadId]) completed := by
  refine ⟨?_,h.load,h.assigned⟩
  have hqueue : (s.submit workload).queuedIds.Perm (s.queuedIds ++ [workload.workloadId]) := by
    rw [queuedIds, queuedIds, ← List.map_singleton, ← List.map_append]
    exact (List.perm_insertionSort _ _).map _
  have hrunning : (s.submit workload).runningIds = s.runningIds := rfl
  rw [hrunning, List.append_assoc]
  calc (s.submit workload).queuedIds ++ (s.runningIds ++ completed)
      |>.Perm (s.queuedIds ++ [workload.workloadId] ++ (s.runningIds ++ completed)) :=
        hqueue.append_right _
    _ |>.Perm (s.queuedIds ++ (s.runningIds ++ completed) ++ [workload.workloadId]) := by
        rw [List.append_assoc, List.append_assoc]
        exact List.perm_append_comm.append_left _
    _ |>.Perm (submitted ++ [workload.workloadId]) := by
        rw [← List.append_assoc]
        exact h.places.append_right _

section Counts
variable {wl : EdgeWorkload}

theorem runningOn_put {s' : EdgeScheduler} (hrunning : s'.running = s.running.put wl)
    (hnew : s.running.get? wl.workloadId = none) (nodeId : String) :
    (s'.runningOn nodeId : ℤ) =
      s.runningOn nodeId+if wl.assignedNode = nodeId then 1 else 0 := by
  rw [runningOn_eq_sum, runningOn_eq_sum, hrunning, Table.sum_put]
  change _-(s.running.get? wl.workloadId).elim 0 _+_ = _
  rw [hnew, Option.elim_none, sub_zero]

theorem runningOn_erase (s' : EdgeScheduler) (hrunning : s'.running = s.running.erase wl.workloadId)
    (hget : s.running.get? wl.workloadId = some wl) (nodeId : String) :
    (s'.runningOn nodeId : ℤ) =
      s.runningOn nodeId-if wl.assignedNode = nodeId then 1 else 0 := by
  rw [runningOn_eq_sum, runningOn_eq_sum, hrunning, Table.sum_erase, hget, Option.elim_some]

end Counts

theorem Booked.currentLoad (h : s.Booked submitted completed) {nodeId : String}
    (hnode : (s.nodeCapacity.get? nodeId).isSome) : s.currentLoad nodeId = s.runningOn nodeId := by
  obtain ⟨node,hget⟩ := Option.isSome_iff_exists.mp hnode
  rw [EdgeScheduler.currentLoad, h.load, hget]
  rfl

/-- The first workload of the queue is started on a registered node. -/
theorem Booked.start (h : s.Booked submitted completed) {first : EdgeWorkload}
    {queue : List EdgeWorkload} (hqueue : s.queue = first :: queue)
    (hnew : first.workloadId ∉ s.runningIds) {nodeId : String}
    (hnode : (s.nodeCapacity.get? nodeId).isSome) (now : ℚ) :
    Booked { s with
        queue := queue,
        running := s.running.put (first.started nodeId now),
        nodeCurrentLoad := s.nodeCurrentLoad.put ⟨nodeId,s.currentLoad nodeId+1⟩ }
      submitted completed := by
  have hget : s.running.get? (first.started nodeId now).workloadId = none :=
    Table.get?_eq_none_iff.mpr hnew
  refine ⟨List.Perm.trans ?_ h.places,fun k => ?_,fun wl hwl => ?_⟩
  · have hkeys : (s.running.put (first.started nodeId now)).entries.map EdgeWorkload.workloadId =
        s.runningIds ++ [first.workloadId] := Table.keys_put_of_none hget
    rw [queuedIds, runningIds]
    dsimp only
    rw [hkeys, queuedIds, hqueue, List.map_cons]
    rw [← List.append_assoc]
    exact (List.perm_append_singleton _ _).append_right _
  · dsimp only
    rw [Table.get?_put, NodeCount.key_eq, runningOn_put rfl hget]
    split_ifs with hk hsame
    · obtain ⟨node,hcapacity⟩ := Option.isSome_iff_exists.mp hnode
      rw [hk, hcapacity, h.currentLoad hnode]
      rfl
    · exact absurd hk.symm hsame
    · exact absurd (Eq.symm ‹nodeId = k›) hk
    · rw [add_zero]
      exact h.load k
  · obtain rfl | ⟨hwl,-⟩ := Table.mem_put.mp hwl
    · exact hnode
    · exact h.assigned wl hwl

theorem Booked.scheduleNext (h : s.Booked submitted completed) (hn : submitted.Nodup) (now : ℚ) :
    (s.scheduleNext now).1.Booked submitted completed := by
  obtain hnone | ⟨first,queue,nodeId,hqueue,hpick,-,hnext⟩ := scheduleNext_cases s now
  · rw [hnone]
    exact h
  · have hnodup := h.nodup hn
    rw [queuedIds, hqueue, List.map_cons, List.cons_append, List.nodup_cons, List.mem_append,
      not_or] at hnodup
    obtain ⟨capacity,hcapacity,-⟩ := room_of_pickNode hpick
    rw [hnext]
    exact h.start hqueue hnodup.1.2 (Option.isSome_of_mem hcapacity) now

/-- The counter of a node with a running workload is not 0, and goes down by one. -/
theorem Booked.get?_released (h : s.Booked submitted completed) {wl : EdgeWorkload}
    (hwl : wl ∈ s.running.entries) (nodeId : String) :
    (s.released wl.assignedNode).get? nodeId = (s.nodeCapacity.get? nodeId).map fun _ =>
      ⟨nodeId,s.runningOn nodeId-if wl.assignedNode = nodeId then 1 else 0⟩ := by
  obtain ⟨node,hcapacity⟩ := Option.isSome_iff_exists.mp (h.assigned wl hwl)
  have hload : s.nodeCurrentLoad.get? wl.assignedNode =
      some ⟨wl.assignedNode,s.runningOn wl.assignedNode⟩ := by
    rw [h.load, hcapacity]
    rfl
  have hpos : 0 < s.runningOn wl.assignedNode :=
    List.countP_pos_iff.mpr ⟨wl,hwl,decide_eq_true rfl⟩
  rw [released, hload]
  dsimp only
  rw [Table.get?_put, NodeCount.key_eq]
  by_cases hsame : wl.assignedNode = nodeId
  · rw [if_pos hsame.symm, if_pos hsame, ← hsame, hcapacity, max_eq_right (by omega)]
    rfl
  · rw [if_neg (Ne.symm hsame), if_neg hsame, sub_zero]
    exact h.load nodeId

theorem Booked.complete (h : s.Booked submitted completed) (now : ℚ) (workloadId : String)
    (success : Bool) :
    (s.complete now workloadId success).1.Booked submitted
      (completed ++ s.completedBy (.complete now workloadId success)) := by
  rw [completedBy]
  cases hget : s.running.get? workloadId with
  | none =>
    have hnone : s.complete now workloadId success = (s,none) := by
      rw [EdgeScheduler.complete, hget]
    rw [hnone, Option.isSome_none, if_neg Bool.false_ne_true, List.append_nil]
    exact h
  | some wl =>
    obtain rfl : wl.workloadId = workloadId := Table.key_of_get? hget
    have hwl := Table.mem_of_get? hget
    have hsome : s.complete now wl.workloadId success = ({ s with
        running := s.running.erase wl.workloadId,
        nodeCurrentLoad := s.released wl.assignedNode,
        completed := s.recorded (wl.ended now success) },some (wl.ended now success)) := by
      rw [EdgeScheduler.complete, hget]
      rfl
    rw [hsome, Option.isSome_some, if_pos rfl]
    refine ⟨List.Perm.trans ?_ h.places,fun k => ?_,fun wl' hwl' => ?_⟩
    · have hkeys : (s.running.erase wl.workloadId).entries.map EdgeWorkload.workloadId =
          s.runningIds.erase wl.workloadId := Table.keys_erase s.running wl.workloadId
      have hperm := List.perm_cons_erase (List.mem_map_of_mem (f := EdgeWorkload.workloadId) hwl)
      rw [runningIds]
      dsimp only
      rw [hkeys]
      change (s.queuedIds ++ s.runningIds.erase wl.workloadId ++
        (completed ++ [wl.workloadId])).Perm (s.queuedIds ++ s.runningIds ++ completed)
      rw [List.append_assoc, List.append_assoc]
      refine List.Perm.append_left _ ?_
      calc s.runningIds.erase wl.workloadId ++ (completed ++ [wl.workloadId])
          |>.Perm (wl.workloadId :: s.runningIds.erase wl.workloadId ++ completed) := by
            rw [← List.append_assoc]
            exact List.perm_append_singleton _ _
        _ |>.Perm (s.runningIds ++ completed) := hperm.symm.append_right _
    · have hon := runningOn_erase (s := s) (s.complete now wl.workloadId success).1
        (by rw [hsome]) hget k
      rw [hsome] at hon
      rw [hon]
      exact h.get?_released hwl k
    · exact h.assigned wl' (Table.mem_erase.mp hwl').1

/-- What every call keeps, when no id is submitted twice. -/
theorem Booked.exec (h : s.Booked submitted completed) (c : EdgeSchedulerCall)
    (hn : (submitted ++ c.submitted).Nodup) :
    (s.exec c).Booked (submitted ++ c.submitted) (completed ++ s.completedBy c) := by
  cases c with
  | submit workload =>
    simp only [completedBy, EdgeSchedulerCall.submitted, List.append_nil]
    exact h.submit workload
  | registerNode nodeId capacity =>
    simp only [completedBy, EdgeSchedulerCall.submitted, List.append_nil]
    exact h.registerNode nodeId capacity
  | unregisterNode nodeId =>
    simp only [completedBy, EdgeSchedulerCall.submitted, List.append_nil]
    exact h.unregisterNode nodeId
  | scheduleNext now =>
    simp only [completedBy, EdgeSchedulerCall.submitted, List.append_nil] at hn ⊢
    exact h.scheduleNext hn now
  | complete now workloadId success =>
    simp only [EdgeSchedulerCall.submitted, List.append_nil]
    exact h.complete now workloadId success

theorem booked_run (calls : List EdgeSchedulerCall) (h : (submittedIn calls).Nodup) :
    (run EdgeScheduler.exec {} calls).Booked (submittedIn calls) (completedIn {} calls) := by
  induction calls using List.reverseRecOn with
  | nil => exact ⟨.nil,fun _ => rfl,nofun⟩
  | append_singleton calls c ih =>
    have hsubmitted : submittedIn (calls ++ [c]) = submittedIn calls ++ c.submitted := by
      rw [submittedIn, List.flatMap_append, List.flatMap_singleton]
      rfl
    have hcompleted : completedIn {} (calls ++ [c]) =
        completedIn {} calls ++ (run EdgeScheduler.exec {} calls).completedBy c := by
      rw [completedIn, steps_concat, List.flatMap_append, List.flatMap_singleton]
      rfl
    rw [hsubmitted] at h
    rw [run_concat, hsubmitted, hcompleted]
    exact (ih (List.nodup_append.mp h).1).exec c h

/-- Where the load of a node rises, it is within the capacity. -/
theorem currentLoad_scheduleNext_le (s : EdgeScheduler) (now : ℚ) {nodeId : String}
    (h : s.currentLoad nodeId < (s.scheduleNext now).1.currentLoad nodeId) :
    ∃ capacity, s.nodeCapacity.get? nodeId = some ⟨nodeId,capacity⟩ ∧
      (s.scheduleNext now).1.currentLoad nodeId ≤ capacity := by
  obtain hnone | ⟨first,queue,node,-,hpick,-,hnext⟩ := scheduleNext_cases s now
  · rw [hnone] at h
    exact absurd h (lt_irrefl _)
  · obtain ⟨capacity,hcapacity,hroom⟩ := room_of_pickNode hpick
    rw [hnext] at h ⊢
    dsimp only [currentLoad] at h ⊢
    rw [Table.get?_put, NodeCount.key_eq] at h ⊢
    by_cases hsame : nodeId = node
    · rw [if_pos hsame]
      exact ⟨capacity,hsame ▸ hcapacity,Int.add_one_le_of_lt hroom⟩
    · rw [if_neg hsame] at h
      exact absurd h (lt_irrefl _)

/-- After any calls that submit each workload once: the load of a registered node is the number of
workloads that run on it, a load that rises stays within the capacity, workloads run on registered
nodes only, and those submitted and not completed are in one place each. -/
theorem bookkeeping (calls : List EdgeSchedulerCall) (h : (submittedIn calls).Nodup) :
    let s := run EdgeScheduler.exec {} calls
    (∀ node ∈ s.nodeCapacity.entries,
        s.nodeCurrentLoad.get? node.nodeId = some ⟨node.nodeId,s.runningOn node.nodeId⟩) ∧
      (∀ now nodeId, s.currentLoad nodeId < (s.scheduleNext now).1.currentLoad nodeId →
        ∃ capacity, s.nodeCapacity.get? nodeId = some ⟨nodeId,capacity⟩ ∧
          (s.scheduleNext now).1.currentLoad nodeId ≤ capacity) ∧
      (∀ wl ∈ s.running.entries, (s.nodeCapacity.get? wl.assignedNode).isSome) ∧
      (s.queuedIds ++ s.runningIds).Nodup ∧
      ∀ workloadId, workloadId ∈ s.queuedIds ++ s.runningIds ↔
        workloadId ∈ submittedIn calls ∧ workloadId ∉ completedIn {} calls := by
  intro s
  have hbooked := booked_run calls h
  have hnodup := hbooked.places.nodup_iff.mpr h
  refine ⟨fun node hnode => ?_,fun now nodeId => currentLoad_scheduleNext_le s now,
    hbooked.assigned,(List.nodup_append.mp hnodup).1,fun workloadId => ?_⟩
  · have hload := hbooked.load node.nodeId
    have hcapacity : s.nodeCapacity.get? node.nodeId = some node := Table.get?_of_mem hnode
    rwa [hcapacity] at hload
  · rw [← hbooked.places.mem_iff, List.mem_append (t := completedIn {} calls)]
    constructor
    · intro hid
      exact ⟨Or.inl hid,fun hdone => (List.nodup_append.mp hnodup).2.2 _ hid _ hdone rfl⟩
    · exact fun hid => hid.1.resolve_right hid.2

/-- A node is lost while two workloads run, and comes back with another capacity. -/
def nodeLost : List EdgeSchedulerCall :=
  [.registerNode "a" 1,.registerNode "b" 1,.submit { workloadId := "w" },
    .submit { workloadId := "v", priority := 2 },.submit { workloadId := "u" },.scheduleNext 1,
    .scheduleNext 2,.scheduleNext 3,.unregisterNode "a",.complete 4 "v" true,.complete 5 "w" true,
    .registerNode "a" 2,.scheduleNext 6]

theorem bookkeeping_nodeLost :
    let s := run EdgeScheduler.exec {} nodeLost
    (∀ node ∈ s.nodeCapacity.entries,
        s.nodeCurrentLoad.get? node.nodeId = some ⟨node.nodeId,s.runningOn node.nodeId⟩) ∧
      (∀ now nodeId, s.currentLoad nodeId < (s.scheduleNext now).1.currentLoad nodeId →
        ∃ capacity, s.nodeCapacity.get? nodeId = some ⟨nodeId,capacity⟩ ∧
          (s.scheduleNext now).1.currentLoad nodeId ≤ capacity) ∧
      (∀ wl ∈ s.running.entries, (s.nodeCapacity.get? wl.assignedNode).isSome) ∧
      (s.queuedIds ++ s.runningIds).Nodup ∧
      ∀ workloadId, workloadId ∈ s.queuedIds ++ s.runningIds ↔
        workloadId ∈ submittedIn nodeLost ∧ workloadId ∉ completedIn {} nodeLost :=
  bookkeeping nodeLost (by decide)

end EdgeScheduler
end Arsonist.Edge
