import Arsonist.Library.Steps
import Mathlib.Data.List.Sort
import Mathlib.Data.Prod.Lex
import Mathlib.Data.String.Basic

/-! The queue of delayed jobs of `edge/delayed_jobs.py`. Its heap is used only through its least
element, so it is a list in increasing order. Two jobs compare by their times of delivery and, where
these are equal, by their ids. The clock of each call is an input, and may go back. -/
namespace Arsonist.Edge
open Arsonist.Library

/-- A time of delivery and a job id. -/
abbrev DelayedJob := ℚ ×ₗ String

namespace DelayedJob

def deliver (job : DelayedJob) : ℚ := (ofLex job).1

def jobId (job : DelayedJob) : String := (ofLex job).2

theorem deliver_mono {a b : DelayedJob} (h : a ≤ b) : a.deliver ≤ b.deliver := by
  obtain hlt | ⟨heq,-⟩ := Prod.Lex.le_iff.mp h
  · exact hlt.le
  · exact heq.le

end DelayedJob

structure DelayedJobQueue where
  heap : List DelayedJob := []

namespace DelayedJobQueue

/-- The job that a push enters. -/
def delayed (now : ℚ) (jobId : String) (delaySec : ℚ) : DelayedJob :=
  toLex (now+max 0 delaySec,jobId)

def push (q : DelayedJobQueue) (now : ℚ) (jobId : String) (delaySec : ℚ) : DelayedJobQueue :=
  ⟨q.heap.orderedInsert (· ≤ ·) (delayed now jobId delaySec)⟩

/-- The loop of `pop_ready`: the heap that it leaves, and the jobs that it takes off. -/
def popLoop (now : ℚ) : List DelayedJob → List DelayedJob × List DelayedJob
  | [] => ([],[])
  | job :: heap =>
    if job.deliver ≤ now then ((popLoop now heap).1,job :: (popLoop now heap).2)
    else (job :: heap,[])

def popReady (q : DelayedJobQueue) (now : ℚ) : DelayedJobQueue × List String :=
  (⟨(popLoop now q.heap).1⟩,(popLoop now q.heap).2.map DelayedJob.jobId)

end DelayedJobQueue

inductive DelayedJobCall
  | push (now : ℚ) (jobId : String) (delaySec : ℚ)
  | popReady (now : ℚ)

namespace DelayedJobCall

/-- The job that a call enters. -/
def pushed : DelayedJobCall → Option DelayedJob
  | .push now jobId delaySec => some (DelayedJobQueue.delayed now jobId delaySec)
  | .popReady _ => none

/-- The call takes off jobs of that time. -/
def reaches (job : DelayedJob) : DelayedJobCall → Bool
  | .push _ _ _ => false
  | .popReady now => job.deliver ≤ now

/-- The jobs that were entered and that no later call has reached. -/
def awaiting : List DelayedJobCall → List DelayedJob
  | [] => []
  | call :: calls =>
    (call.pushed.toList.filter fun job => !calls.any (reaches job)) ++ awaiting calls

end DelayedJobCall

namespace DelayedJobQueue
open DelayedJobCall

def exec (q : DelayedJobQueue) : DelayedJobCall → DelayedJobQueue
  | .push now jobId delaySec => q.push now jobId delaySec
  | .popReady now => (q.popReady now).1

/-- The jobs that a call takes off. -/
def taken (q : DelayedJobQueue) : DelayedJobCall → List DelayedJob
  | .push _ _ _ => []
  | .popReady now => (popLoop now q.heap).2

variable {heap : List DelayedJob}

/-- In a heap in order, the loop takes off just the jobs whose time has come. -/
theorem popLoop_eq (h : heap.Pairwise (· ≤ ·)) (now : ℚ) :
    popLoop now heap = (heap.filter fun job => !decide (job.deliver ≤ now),
      heap.filter fun job => job.deliver ≤ now) := by
  induction heap with
  | nil => rfl
  | cons job heap ih =>
    obtain ⟨hjob,hheap⟩ := List.pairwise_cons.mp h
    rw [popLoop]
    split_ifs with hready
    · rw [ih hheap]
      simp [hready]
    · have hlate : ∀ other ∈ job :: heap, ¬other.deliver ≤ now := by
        intro other hother hnow
        obtain rfl | hother := List.mem_cons.mp hother
        · exact hready hnow
        · exact hready ((DelayedJob.deliver_mono (hjob other hother)).trans hnow)
      have hall : (job :: heap).filter (fun other => !decide (other.deliver ≤ now)) =
          job :: heap :=
        List.filter_eq_self.mpr fun other hother => by simpa using hlate other hother
      have hnone : (job :: heap).filter (fun other => decide (other.deliver ≤ now)) = [] :=
        List.filter_eq_nil_iff.mpr fun other hother => by simpa using hlate other hother
      rw [hall, hnone]

variable {q : DelayedJobQueue}

theorem sorted_exec (h : q.heap.Pairwise (· ≤ ·)) (call : DelayedJobCall) :
    (q.exec call).heap.Pairwise (· ≤ ·) := by
  cases call with
  | push now jobId delaySec => exact h.orderedInsert _ _
  | popReady now =>
    rw [exec, popReady, popLoop_eq h]
    exact h.filter _

/-- What a call leaves: the job that it enters, and those that it does not reach. -/
theorem perm_exec (h : q.heap.Pairwise (· ≤ ·)) (call : DelayedJobCall) :
    (q.exec call).heap.Perm
      (call.pushed.toList ++ q.heap.filter fun job => !call.reaches job) := by
  cases call with
  | push now jobId delaySec =>
    have hall : q.heap.filter (fun job => !(DelayedJobCall.push now jobId delaySec).reaches job) =
        q.heap := List.filter_eq_self.mpr fun _ _ => rfl
    rw [hall]
    exact List.perm_orderedInsert _ _ _
  | popReady now =>
    rw [exec, popReady, popLoop_eq h]
    exact List.Perm.refl _

theorem perm_run (h : q.heap.Pairwise (· ≤ ·)) (calls : List DelayedJobCall) :
    (run exec q calls).heap.Perm
      ((q.heap.filter fun job => !calls.any (reaches job)) ++ awaiting calls) := by
  induction calls generalizing q with
  | nil => simp [awaiting]
  | cons call calls ih =>
    rw [run_cons]
    refine (ih (sorted_exec h call)).trans ?_
    have hleft := (perm_exec h call).filter fun job => !calls.any (reaches job)
    have hkept : (q.heap.filter fun job => !calls.any (reaches job) && !call.reaches job) =
        q.heap.filter fun job => !(call :: calls).any (reaches job) :=
      List.filter_congr fun job _ => by rw [List.any_cons, Bool.not_or, Bool.and_comm]
    rw [List.filter_append, List.filter_filter, hkept] at hleft
    rw [awaiting, ← List.append_assoc]
    exact (hleft.trans List.perm_append_comm).append_right _

theorem sorted_run (calls : List DelayedJobCall) :
    (run exec {} calls).heap.Pairwise (· ≤ ·) :=
  run_always (I := fun q : DelayedJobQueue => q.heap.Pairwise (· ≤ ·))
    (fun _ call h => sorted_exec h call) List.Pairwise.nil calls

/-- The heap is the jobs that wait, in order. -/
theorem heap_run (calls : List DelayedJobCall) :
    (run exec {} calls).heap = (awaiting calls).insertionSort (· ≤ ·) := by
  have hperm := (perm_run List.Pairwise.nil calls).trans (List.perm_insertionSort (· ≤ ·) _).symm
  exact hperm.eq_of_pairwise' (sorted_run calls) (List.pairwise_insertionSort _ _)

theorem perm_taken_exec (h : q.heap.Pairwise (· ≤ ·)) (call : DelayedJobCall) :
    (q.taken call ++ (q.exec call).heap).Perm (q.heap ++ call.pushed.toList) := by
  cases call with
  | push now jobId delaySec =>
    exact (List.perm_orderedInsert _ _ _).trans (List.perm_append_singleton _ _).symm
  | popReady now =>
    rw [taken, exec, popReady, popLoop_eq h]
    refine (List.filter_append_perm _ _).trans ?_
    rw [DelayedJobCall.pushed, Option.toList_none, List.append_nil]

/-- What is taken off and what is left is what was there and what came. -/
theorem perm_taken (h : q.heap.Pairwise (· ≤ ·)) (calls : List DelayedJobCall) :
    ((steps exec q calls).flatMap (fun x => x.1.taken x.2) ++ (run exec q calls).heap).Perm
      (q.heap ++ calls.filterMap DelayedJobCall.pushed) := by
  induction calls generalizing q with
  | nil => simp
  | cons call calls ih =>
    rw [steps_cons, List.flatMap_cons, run_cons, List.append_assoc]
    refine ((ih (sorted_exec h call)).append_left _).trans ?_
    rw [← List.append_assoc]
    refine ((perm_taken_exec h call).append_right _).trans ?_
    rw [List.append_assoc, List.filterMap_cons]
    cases call.pushed <;> rfl

/-- Each job is delivered once, by the first call of `pop_ready` after its push whose clock has
reached its time: a call delivers those that no call before has reached, in the order of their
times, and what was delivered and what is left make up what was pushed. -/
theorem popReady_after (calls : List DelayedJobCall) (now : ℚ) :
    ((run exec {} calls).popReady now).2 =
        (((awaiting calls).insertionSort (· ≤ ·)).filter fun job => job.deliver ≤ now).map
          DelayedJob.jobId ∧
      ((steps exec {} calls).flatMap (fun x => x.1.taken x.2) ++ (run exec {} calls).heap).Perm
        (calls.filterMap DelayedJobCall.pushed) := by
  refine ⟨?_,perm_taken List.Pairwise.nil calls⟩
  rw [popReady, popLoop_eq (sorted_run calls), heap_run]

end DelayedJobQueue
end Arsonist.Edge
