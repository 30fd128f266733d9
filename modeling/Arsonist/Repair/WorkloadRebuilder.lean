import Arsonist.Library.Backlog
import Arsonist.Library.Json
import Arsonist.Library.Keyed
import Arsonist.Library.Selection
import Arsonist.Library.Steps
import Arsonist.Library.Text
import Arsonist.Shared.Rounding

/-! The rebuilder of `repair/workload_rebuilder.py`. Requests that wait and requests that were
carried out stand in one list, which is cut to its last entries. -/
namespace Arsonist.Repair
open Arsonist.Library Arsonist.Shared

inductive RebuildStatus | pending | rebuilding | completed | failed
  deriving DecidableEq

/-- A request. Its `serial` is the number of requests made before it; the program has no such
field. -/
structure WorkloadRebuildRequest where
  serial : ℕ
  rebuildId : String
  workloadId : String
  regionId : String := ""
  targetRegion : String := ""
  reason : String := ""
  status : RebuildStatus := .pending
  preserveState : Bool := true
  priority : ℤ := 5
  createdAt : ℚ := 0
  startedAt : ℚ := 0
  completedAt : ℚ := 0
  rebuildTimeMs : ℚ := 0
  result : String := ""

instance : Keyed WorkloadRebuildRequest String := ⟨WorkloadRebuildRequest.rebuildId⟩

namespace WorkloadRebuildRequest

def isPending (r : WorkloadRebuildRequest) : Bool := r.status = .pending

/-- The request once it is carried out. -/
def completed (started finished : ℚ) (r : WorkloadRebuildRequest) : WorkloadRebuildRequest :=
  { r with
    status := .completed
    startedAt := started
    completedAt := finished
    rebuildTimeMs := roundTo 1 ((finished-started)*1000)
    result := "rebuilt_successfully" }

end WorkloadRebuildRequest

inductive RebuildError
  | valueError (text : String)
  | runtimeError (text : String)
  deriving DecidableEq

/-- What is asked for. -/
structure RebuildOrder where
  workloadId : String
  regionId : String := ""
  targetRegion : String := ""
  reason : String := ""
  preserveState : Bool := true
  priority : ℤ := 5

/-- The number `accepted` is not counted by the program. -/
structure WorkloadRebuilder where
  maxConcurrent : ℤ := 10
  maxHistory : ℤ := 500
  requests : List WorkloadRebuildRequest := []
  active : Table WorkloadRebuildRequest := .empty
  totalRebuilt : ℕ := 0
  events : List Json.Object := []
  accepted : ℕ := 0

namespace WorkloadRebuilder
variable (m : WorkloadRebuilder)

def newRequest (now : ℚ) (order : RebuildOrder) : WorkloadRebuildRequest :=
  { serial := m.accepted
    rebuildId := "rebuild-" ++ order.workloadId ++ "-" ++ (Text.truncate now).repr
    workloadId := order.workloadId
    regionId := order.regionId
    targetRegion := order.targetRegion
    reason := order.reason
    preserveState := order.preserveState
    priority := order.priority
    createdAt := now }

def requestRebuild (now : ℚ) (order : RebuildOrder) :
    WorkloadRebuilder × WorkloadRebuildRequest :=
  let req := m.newRequest now order
  ({ m with
      requests := truncated m.maxHistory (m.requests ++ [req])
      accepted := m.accepted+1 },req)

def rebuiltEvent (req : WorkloadRebuildRequest) : Json.Object :=
  [("type",.str "workload_rebuilt"),("rebuild_id",.str req.rebuildId),
    ("workload_id",.str req.workloadId),
    ("region",.str (if req.targetRegion = "" then req.regionId else req.targetRegion)),
    ("rebuild_time_ms",.float req.rebuildTimeMs),("ts",.float req.completedAt)]

/-- The first pending request of the id is carried out. It is active only within the call. -/
def executeRebuild (started finished : ℚ) (rebuildId : String) :
    WorkloadRebuilder × Except RebuildError WorkloadRebuildRequest :=
  match Backlog.finishFirst WorkloadRebuildRequest.rebuildId WorkloadRebuildRequest.isPending
      (WorkloadRebuildRequest.completed started finished) rebuildId m.requests with
  | none => (m,.error (.valueError ("No pending rebuild " ++ rebuildId)))
  | some (req,requests) =>
    if m.maxConcurrent ≤ m.active.entries.length then
      (m,.error (.runtimeError "Max concurrent rebuilds reached"))
    else
      ({ m with
          requests := requests
          active := (m.active.put req).erase rebuildId
          totalRebuilt := m.totalRebuilt+1
          events := truncated m.maxHistory (m.events ++ [rebuiltEvent req]) },.ok req)

/-- The loop of `rebuild_all_pending`, which an error ends. -/
def executeAll (times : ℕ → ℚ × ℚ) :
    WorkloadRebuilder → List String → WorkloadRebuilder × List WorkloadRebuildRequest
  | m, [] => (m,[])
  | m, rebuildId :: rest =>
    match m.executeRebuild (times 0).1 (times 0).2 rebuildId with
    | (m,.error _) => (m,[])
    | (m,.ok req) =>
      let (m,results) := executeAll (fun n => times (n+1)) m rest
      (m,req :: results)

/-- The pending requests by falling priority. -/
def pendingIds : List String :=
  (ranked WorkloadRebuildRequest.priority
    (m.requests.filter WorkloadRebuildRequest.isPending)).map WorkloadRebuildRequest.rebuildId

def rebuildAllPending (times : ℕ → ℚ × ℚ) : WorkloadRebuilder × List WorkloadRebuildRequest :=
  executeAll times m m.pendingIds

end WorkloadRebuilder

/-- A call of the rebuilder, with the times that it reads. -/
inductive RebuildCall
  | requestRebuild (now : ℚ) (order : RebuildOrder)
  | executeRebuild (started finished : ℚ) (rebuildId : String)

namespace WorkloadRebuilder

def exec (m : WorkloadRebuilder) : RebuildCall → WorkloadRebuilder
  | .requestRebuild now order => (m.requestRebuild now order).1
  | .executeRebuild started finished rebuildId => (m.executeRebuild started finished rebuildId).1

end WorkloadRebuilder
end Arsonist.Repair

/-! Whether each request for a rebuild is carried out. A request that is cut off the list before it
was carried out is lost; where that does not happen, one call carries out all that wait. -/
namespace Arsonist.Repair
open Arsonist.Library
namespace WorkloadRebuilder

/-- The number of the request that a call makes. -/
def acceptedBy (m : WorkloadRebuilder) : RebuildCall → Option ℕ
  | .requestRebuild now order => some (m.requestRebuild now order).2.serial
  | .executeRebuild _ _ _ => none

/-- The number of the request that a call carries out. -/
def executedBy (m : WorkloadRebuilder) : RebuildCall → Option ℕ
  | .requestRebuild _ _ => none
  | .executeRebuild started finished rebuildId =>
    (m.executeRebuild started finished rebuildId).2.toOption.map WorkloadRebuildRequest.serial

/-- The requests and their counters. -/
def view (m : WorkloadRebuilder) : Backlog.View WorkloadRebuildRequest :=
  ⟨m.requests,m.accepted,m.totalRebuilt⟩

/-- After a run, one call carries out exactly once each request that was made and is left, so that
none waits and all are counted. -/
def RebuildsAll (m : WorkloadRebuilder) (calls : List RebuildCall) (times : ℕ → ℚ × ℚ) : Prop :=
  Backlog.Settled WorkloadRebuildRequest.isPending (emitted exec acceptedBy m calls)
    (emitted exec executedBy m calls)
    (((run exec m calls).rebuildAllPending times).2.map WorkloadRebuildRequest.serial)
    ((run exec m calls).rebuildAllPending times).1.view

/-- A request whose entry makes the list lose one that waits. -/
def Drops (m : WorkloadRebuilder) : RebuildCall → Prop
  | .requestRebuild now order =>
    Backlog.Loses WorkloadRebuildRequest.isPending m.maxHistory m.requests (m.newRequest now order)
  | .executeRebuild _ _ _ => False

instance (m : WorkloadRebuilder) : ∀ c, Decidable (m.Drops c)
  | .requestRebuild _ _ => inferInstanceAs (Decidable (Backlog.Loses _ _ _ _))
  | .executeRebuild _ _ _ => .isFalse not_false

/-- What each call keeps. -/
structure Idle (maxConcurrent maxHistory : ℤ) (m : WorkloadRebuilder) : Prop where
  maxConcurrent_eq : m.maxConcurrent = maxConcurrent
  maxHistory_eq : m.maxHistory = maxHistory
  active : m.active.entries = []

/-- The ids of what waits, in the order of the list. -/
def waiting (m : WorkloadRebuilder) : List String :=
  (m.requests.filter WorkloadRebuildRequest.isPending).map WorkloadRebuildRequest.rebuildId

variable {m : WorkloadRebuilder} {maxConcurrent maxHistory : ℤ}

/-- One request, which waited under an id, was carried out. -/
structure Executes (maxConcurrent maxHistory : ℤ) (m : WorkloadRebuilder) (rebuildId : String)
    (a : WorkloadRebuildRequest) (l : List WorkloadRebuildRequest) (m' : WorkloadRebuilder) :
    Prop where
  finishes : Backlog.Finishes WorkloadRebuildRequest.rebuildId WorkloadRebuildRequest.isPending
    rebuildId m.requests a l
  view : m'.view = ⟨l,m.accepted,m.totalRebuilt+1⟩
  idle : Idle maxConcurrent maxHistory m'

theorem executeRebuild_of_some (h : Idle maxConcurrent maxHistory m) (hpos : 0 < maxConcurrent)
    {started finished : ℚ} {rebuildId : String} {a : WorkloadRebuildRequest}
    {l : List WorkloadRebuildRequest}
    (hfirst : Backlog.finishFirst WorkloadRebuildRequest.rebuildId WorkloadRebuildRequest.isPending
      (WorkloadRebuildRequest.completed started finished) rebuildId m.requests =
        some (a.completed started finished,l))
    (hfinishes : Backlog.Finishes WorkloadRebuildRequest.rebuildId
      WorkloadRebuildRequest.isPending rebuildId m.requests a l) :
    ∃ m', m.executeRebuild started finished rebuildId = (m',.ok (a.completed started finished)) ∧
      m.Executes maxConcurrent maxHistory rebuildId a l m' := by
  have hroom : ¬ m.maxConcurrent ≤ m.active.entries.length := by
    rw [h.maxConcurrent_eq, h.active]
    exact not_le.mpr hpos
  have hactive : ((m.active.put (a.completed started finished)).erase rebuildId).entries = [] := by
    refine List.eq_nil_iff_forall_not_mem.mpr fun r hr => ?_
    obtain ⟨hr,hne⟩ := Table.mem_erase.mp hr
    obtain rfl | ⟨hr,-⟩ := Table.mem_put.mp hr
    · exact hne hfinishes.id_eq
    · rw [h.active] at hr
      cases hr
  rw [executeRebuild, hfirst]
  dsimp only
  rw [if_neg hroom]
  exact ⟨_,rfl,hfinishes,rfl,h.maxConcurrent_eq,h.maxHistory_eq,hactive⟩

/-- Without room for one active request an execution fails. -/
theorem executeRebuild_of_full (h : Idle maxConcurrent maxHistory m) (hfull : maxConcurrent ≤ 0)
    (started finished : ℚ) (rebuildId : String) :
    ∃ e, m.executeRebuild started finished rebuildId = (m,.error e) := by
  have hroom : m.maxConcurrent ≤ m.active.entries.length := by
    rw [h.maxConcurrent_eq, h.active]
    exact hfull
  rw [executeRebuild]
  split
  · exact ⟨_,rfl⟩
  · rw [if_pos hroom]
    exact ⟨_,rfl⟩

/-- An execution carries out a request, or it fails and changes nothing. -/
theorem executeRebuild_cases (h : Idle maxConcurrent maxHistory m) (started finished : ℚ)
    (rebuildId : String) :
    (∃ e, m.executeRebuild started finished rebuildId = (m,.error e)) ∨
      ∃ m' a l, m.executeRebuild started finished rebuildId =
        (m',.ok (a.completed started finished)) ∧
        m.Executes maxConcurrent maxHistory rebuildId a l m' := by
  obtain hfull | hpos := le_or_gt maxConcurrent 0
  · exact Or.inl (executeRebuild_of_full h hfull started finished rebuildId)
  · cases hfirst : Backlog.finishFirst WorkloadRebuildRequest.rebuildId
        WorkloadRebuildRequest.isPending (WorkloadRebuildRequest.completed started finished)
        rebuildId m.requests with
    | none =>
      rw [executeRebuild, hfirst]
      exact Or.inl ⟨_,rfl⟩
    | some x =>
      obtain ⟨b,l⟩ := x
      obtain ⟨a,rfl,hfinishes⟩ := Backlog.finishes_finishFirst (fun _ => rfl) hfirst
      obtain ⟨m',hexecute,hexecutes⟩ := executeRebuild_of_some h hpos hfirst hfinishes
      exact Or.inr ⟨m',a,l,hexecute,hexecutes⟩

/-- A rebuilder keeps a backlog. -/
theorem keeps (maxConcurrent maxHistory : ℤ) :
    Backlog.Keeps WorkloadRebuildRequest.rebuildId WorkloadRebuildRequest.isPending
      WorkloadRebuildRequest.serial maxHistory (Idle maxConcurrent maxHistory) exec view acceptedBy
      executedBy Drops where
  invariant m c h := by
    cases c with
    | requestRebuild now order => exact ⟨h.maxConcurrent_eq,h.maxHistory_eq,h.active⟩
    | executeRebuild started finished rebuildId =>
      rw [exec]
      obtain ⟨e,hexecute⟩ | ⟨m',a,l,hexecute,hexecutes⟩ :=
        executeRebuild_cases h started finished rebuildId
      · rw [hexecute]
        exact h
      · rw [hexecute]
        exact hexecutes.idle
  moves m c h := by
    cases c with
    | requestRebuild now order =>
      obtain rfl := h.maxHistory_eq
      exact Backlog.Moves.accept (v := m.view) (a := m.newRequest now order) rfl rfl
    | executeRebuild started finished rebuildId =>
      rw [exec, executedBy]
      obtain ⟨e,hexecute⟩ | ⟨m',a,l,hexecute,hexecutes⟩ :=
        executeRebuild_cases h started finished rebuildId
      · rw [hexecute]
        exact Backlog.Moves.idle
      · rw [hexecute, hexecutes.view]
        exact Backlog.Moves.finish (v := m.view) (a := a) hexecutes.finishes

/-- With the ids of what waits, in any order, one request after the other is carried out. -/
theorem cleared_executeAll (h : Idle maxConcurrent maxHistory m) (hpos : 0 < maxConcurrent)
    {ids : List String} (hids : m.waiting.Perm ids) (times : ℕ → ℚ × ℚ) :
    Backlog.Cleared WorkloadRebuildRequest.isPending WorkloadRebuildRequest.serial m.view
      ((executeAll times m ids).2.map WorkloadRebuildRequest.serial)
      (executeAll times m ids).1.view := by
  induction ids generalizing m times with
  | nil => exact Backlog.cleared_of_nil (List.map_eq_nil_iff.mp hids.eq_nil)
  | cons rebuildId rest ih =>
    obtain ⟨a,l,hfirst,hfinishes,hrest⟩ := Backlog.exists_finishFirst
      (f := WorkloadRebuildRequest.completed (times 0).1 (times 0).2) (fun _ => rfl) hids
    obtain ⟨m',hexecute,hexecutes⟩ := executeRebuild_of_some h hpos hfirst hfinishes
    have hrequests : m'.requests = l := congrArg Backlog.View.records hexecutes.view
    have hlater := ih hexecutes.idle (by rw [waiting, hrequests]; exact hrest)
      fun n => times (n+1)
    rw [hexecutes.view] at hlater
    rw [executeAll, hexecute]
    exact Backlog.Cleared.cons (a := a) hlater hfinishes

theorem perm_pendingIds (m : WorkloadRebuilder) : m.waiting.Perm m.pendingIds :=
  (perm_ranked _ _).symm.map _

/-- A rebuilder that was not called yet. -/
def start (maxConcurrent maxHistory : ℤ) : WorkloadRebuilder := { maxConcurrent, maxHistory }

theorem idle_run (maxConcurrent maxHistory : ℤ) (calls : List RebuildCall) :
    Idle maxConcurrent maxHistory (run exec (start maxConcurrent maxHistory) calls) :=
  run_always (keeps maxConcurrent maxHistory).invariant ⟨rfl,rfl,rfl⟩ calls

section Full
variable (hfull : maxConcurrent ≤ 0)
include hfull

/-- Without room for one active request nothing is ever carried out. -/
theorem executeAll_of_full (h : Idle maxConcurrent maxHistory m) (times : ℕ → ℚ × ℚ)
    (ids : List String) : executeAll times m ids = (m,[]) := by
  cases ids with
  | nil => rfl
  | cons rebuildId rest =>
    obtain ⟨e,hexecute⟩ := executeRebuild_of_full h hfull (times 0).1 (times 0).2 rebuildId
    rw [executeAll, hexecute]

theorem totalRebuilt_of_full (calls : List RebuildCall) :
    (run exec (start maxConcurrent maxHistory) calls).totalRebuilt = 0 := by
  induction calls using List.reverseRecOn with
  | nil => rfl
  | append_singleton calls c ih =>
    rw [run_concat]
    cases c with
    | requestRebuild now order => exact ih
    | executeRebuild started finished rebuildId =>
      obtain ⟨e,hexecute⟩ := executeRebuild_of_full (idle_run maxConcurrent maxHistory calls) hfull
        started finished rebuildId
      rw [exec, hexecute]
      exact ih

end Full

theorem emitted_eq_nil_iff (m : WorkloadRebuilder) (calls : List RebuildCall) :
    emitted exec acceptedBy m calls = [] ↔ ∀ now order, .requestRebuild now order ∉ calls := by
  induction calls generalizing m with
  | nil => simp
  | cons c calls ih =>
    rw [emitted_cons, List.append_eq_nil_iff, ih]
    cases c with
    | requestRebuild now order =>
      refine iff_of_false (fun h => List.cons_ne_nil _ _ h.1) fun h => ?_
      exact h now order List.mem_cons_self
    | executeRebuild started finished rebuildId => simp [acceptedBy]

/-- An execution loses nothing. -/
theorem keeps_of_no_requests (m : WorkloadRebuilder) {calls : List RebuildCall}
    (h : ∀ now order, .requestRebuild now order ∉ calls) :
    Along exec (fun m c => ¬ m.Drops c) m calls := by
  rw [along_iff]
  rintro p c q rfl
  cases c with
  | requestRebuild now order =>
    exact absurd (List.mem_append_right p List.mem_cons_self) (h now order)
  | executeRebuild started finished rebuildId => exact not_false

/-- One call carries out everything that is left, exactly if no request was lost, and there is room
for an active request or nothing was asked for. -/
theorem rebuildsAll_iff (maxConcurrent maxHistory : ℤ) (calls : List RebuildCall)
    (times : ℕ → ℚ × ℚ) :
    RebuildsAll (start maxConcurrent maxHistory) calls times ↔
      Along exec (fun m c => ¬ m.Drops c) (start maxConcurrent maxHistory) calls ∧
        (0 < maxConcurrent ∨ ∀ now order, .requestRebuild now order ∉ calls) := by
  have hkeeps := keeps maxConcurrent maxHistory
  have hidle := idle_run maxConcurrent maxHistory calls
  have hstart : Idle maxConcurrent maxHistory (start maxConcurrent maxHistory) := ⟨rfl,rfl,rfl⟩
  obtain hfull | hpos := le_or_gt maxConcurrent 0
  · rw [or_iff_right hfull.not_gt, ← emitted_eq_nil_iff (start maxConcurrent maxHistory)]
    have hall : (run exec (start maxConcurrent maxHistory) calls).rebuildAllPending times =
        (_,[]) := executeAll_of_full hfull hidle times _
    have haccepted := (hkeeps.accounted hstart rfl calls).accepted_eq
    rw [RebuildsAll, hall]
    constructor
    · intro h
      have htotal : (run exec (start maxConcurrent maxHistory) calls).totalRebuilt = _ := h.total
      rw [totalRebuilt_of_full hfull] at htotal
      have hnil := List.length_eq_zero_iff.mp htotal.symm
      exact ⟨keeps_of_no_requests _ ((emitted_eq_nil_iff _ calls).mp hnil),hnil⟩
    · rintro ⟨hkeep,hnil⟩
      rw [hnil] at haccepted
      have hlength := (hkeeps.complete hstart rfl hkeep).length_eq
      rw [← haccepted, List.length_append, List.length_map] at hlength
      have hpending := List.length_eq_zero_iff.mp (Nat.eq_zero_of_add_eq_zero_left hlength.symm)
      exact (hkeeps.settled_iff hstart rfl calls (Backlog.cleared_of_nil hpending)).mpr hkeep
  · rw [or_iff_left_of_imp fun _ => hpos, and_iff_left hpos]
    exact hkeeps.settled_iff hstart rfl calls
      (cleared_executeAll hidle hpos (perm_pendingIds _) times)

end WorkloadRebuilder
end Arsonist.Repair
