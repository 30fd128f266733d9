import Arsonist.DistributedQueue.ReplicatedQueue
import Arsonist.Library.Paging
import Mathlib.Data.String.Basic

/-! A replica that pulls all jobs of another one, delta by delta. -/
namespace Arsonist.DistributedQueue
open Arsonist.Library Arsonist.Shared Json

/-- The job of a received element. -/
def jobIdOf (body : Json) : Option JobId :=
  (asObject body).bind fun o => (o.lookup "job_id").bind asStr

/-- All that is received from a cursor on: each delta is asked for with the last job of the one
before, until one is empty. -/
inductive Pulls (rq : ReplicatedQueue) : Option JobId → List Json → Prop
  | done {since : Option JobId} (hempty : buildQueueDelta rq since = []) : Pulls rq since []
  | more {since : Option JobId} {last : Json} {id : JobId} {rest : List Json}
      (hlast : (buildQueueDelta rq since).getLast? = some last) (hid : jobIdOf last = some id)
      (hrest : Pulls rq (some id) rest) : Pulls rq since (buildQueueDelta rq since ++ rest)

/-- The deltas bring every job once, in the order of the jobs. -/
def BringsAll (rq : ReplicatedQueue) : Prop :=
  ∃ jobs : List ReplicatedJobState, Pulls rq none (jobs.map fun s => obj s.modelDump) ∧
    jobs.Pairwise (fun s t => s.jobId < t.jobId) ∧ jobs.Perm (rq.entries.map RepJob.state)

namespace ReplicatedQueue
variable (rq : ReplicatedQueue)

/-- All states, in the order of their jobs. -/
def ordered : List ReplicatedJobState := rq.listStates (-1)

theorem ordered_perm : rq.ordered.Perm (rq.entries.map RepJob.state) :=
  List.perm_insertionSort _ _

theorem ordered_sorted : rq.ordered.Pairwise fun a b => a.jobId < b.jobId := by
  refine pairwise_insertionSort_key ?_
  rw [List.map_map]
  exact rq.nodup

theorem listStates_eq_take (n : ℕ) : rq.listStates n = rq.ordered.take n := by
  rw [listStates, if_neg (by omega)]
  rfl

end ReplicatedQueue

section Deltas
variable (rq : ReplicatedQueue)

/-- Without a cursor, a delta holds the first 200 jobs. -/
theorem buildQueueDelta_none :
    buildQueueDelta rq none = (rq.ordered.take 200).map fun s => obj s.modelDump := by
  rw [buildQueueDelta]
  change ((rq.listStates (200 : ℕ)).take 200).map _ = _
  rw [rq.listStates_eq_take, List.take_take, Nat.min_self]

/-- The empty cursor is none. -/
theorem buildQueueDelta_empty : buildQueueDelta rq (some "") = buildQueueDelta rq none := rfl

/-- A delta holds those of the first 200 jobs that are above the cursor. -/
theorem buildQueueDelta_some {since : JobId} (h : since ≠ "") :
    buildQueueDelta rq (some since) =
      ((rq.ordered.take 200).filter fun s => since < s.jobId).map fun s => obj s.modelDump := by
  rw [buildQueueDelta, if_neg h]
  change (((rq.listStates (200 : ℕ)).filter _).take 200).map _ = _
  rw [rq.listStates_eq_take, List.take_of_length_le]
  exact (List.length_filter_le _ _).trans (List.length_take_le 200 _)

end Deltas

variable {rq : ReplicatedQueue}

@[simp] theorem jobIdOf_modelDump (st : ReplicatedJobState) :
    jobIdOf (obj st.modelDump) = some st.jobId := rfl

/-- Behind the last of the first 200 jobs a delta is empty. -/
theorem buildQueueDelta_last {st : ReplicatedJobState} (hne : st.jobId ≠ "")
    (hlast : (rq.ordered.take 200).getLast? = some st) :
    buildQueueDelta rq (some st.jobId) = [] := by
  rw [buildQueueDelta_some rq hne, List.map_eq_nil_iff, List.filter_eq_nil_iff]
  have hsorted := rq.ordered_sorted.sublist (List.take_sublist 200 _)
  obtain ⟨first,hfirst⟩ := List.getLast?_eq_some_iff.mp hlast
  rw [hfirst] at hsorted ⊢
  intro s hs hlt
  have hlt := of_decide_eq_true hlt
  obtain hs | hs := List.mem_append.mp hs
  · exact ((List.pairwise_append.mp hsorted).2.2 s hs st List.mem_cons_self).not_gt hlt
  · rw [List.mem_singleton.mp hs] at hlt
    exact lt_irrefl _ hlt

theorem Pulls.eq_nil {since : Option JobId} {jobs : List Json} (h : Pulls rq since jobs)
    (hempty : buildQueueDelta rq since = []) : jobs = [] := by
  cases h with
  | done => rfl
  | more hlast hid hrest =>
    rw [hempty] at hlast
    cases hlast

/-- A delta whose last job is the empty name is asked for again and again. -/
theorem not_pulls_empty {last : Json} (hlast : (buildQueueDelta rq none).getLast? = some last)
    (hid : jobIdOf last = some "") (jobs : List Json) : ¬ Pulls rq (some "") jobs := by
  intro h
  generalize hsince : some "" = since at h
  induction h with
  | done hempty =>
    subst hsince
    rw [buildQueueDelta_empty] at hempty
    rw [hempty] at hlast
    cases hlast
  | more hlast' hid' hrest ih =>
    subst hsince
    rw [buildQueueDelta_empty, hlast] at hlast'
    obtain rfl := Option.some.inj hlast'
    rw [hid] at hid'
    exact ih hid'

theorem not_lt_empty (s : String) : ¬ s < "" := by
  rw [String.lt_iff_toList_lt]
  exact List.not_lt_nil _

theorem ordered_keys (rq : ReplicatedQueue) :
    (rq.ordered.map fun s => s.jobId).Perm (rq.entries.map Keyed.key) := by
  have hmap := rq.ordered_perm.map fun s => s.jobId
  rw [List.map_map] at hmap
  exact hmap

/-- The last of the first 200 jobs has the empty name only if it is the only job. -/
theorem jobId_last_eq_empty_iff {st : ReplicatedJobState}
    (hlast : (rq.ordered.take 200).getLast? = some st) :
    st.jobId = "" ↔ rq.entries.map Keyed.key = [""] := by
  constructor
  · intro hempty
    obtain ⟨first,hfirst⟩ := List.getLast?_eq_some_iff.mp hlast
    have hsorted := rq.ordered_sorted.sublist (List.take_sublist 200 _)
    rw [hfirst] at hsorted
    have hnone : first = [] := by
      rw [List.eq_nil_iff_forall_not_mem]
      intro s hs
      have hlt := (List.pairwise_append.mp hsorted).2.2 s hs st List.mem_cons_self
      rw [hempty] at hlt
      exact not_lt_empty _ hlt
    have hlength : min 200 rq.ordered.length = 1 := by
      rw [← List.length_take, hfirst, hnone]
      rfl
    have hall : rq.ordered = [st] := by
      rw [← List.take_of_length_le (i := 200) (l := rq.ordered) (by omega), hfirst, hnone]
      rfl
    have hkeys := ordered_keys rq
    rw [hall, List.map_singleton, hempty] at hkeys
    exact (List.singleton_perm.mp hkeys).symm
  · intro hone
    have hmem := List.mem_of_mem_take (List.mem_of_getLast? hlast)
    have hkey := (ordered_keys rq).subset (List.mem_map_of_mem hmem)
    rw [hone] at hkey
    exact List.mem_singleton.mp hkey

/-- All jobs, if they fit into one delta. -/
theorem take_ordered (h : rq.entries.length ≤ 200) : rq.ordered.take 200 = rq.ordered := by
  refine List.take_of_length_le ?_
  rw [rq.ordered_perm.length_eq, List.length_map]
  exact h

/-- Nothing comes after the first delta that is not empty. -/
theorem small_of_bringsAll (h : BringsAll rq) :
    rq.entries.length ≤ 200 ∧ rq.entries.map Keyed.key ≠ [""] := by
  obtain ⟨jobs,hpulls,-,hperm⟩ := h
  have hnone := buildQueueDelta_none rq
  have hlength : jobs.length = rq.entries.length := by
    rw [hperm.length_eq, List.length_map]
  generalize hbodies : (jobs.map fun s => obj s.modelDump) = bodies at hpulls
  cases hpulls with
  | done hempty =>
    have hjobs : jobs = [] := List.map_eq_nil_iff.mp hbodies
    have hentries : rq.entries = [] := by
      rw [← List.length_eq_zero_iff, ← hlength, hjobs]
      rfl
    rw [hentries]
    exact ⟨Nat.zero_le 200,nofun⟩
  | @more _ last id rest hlast hid hrest =>
    obtain ⟨st,hst,rfl⟩ : ∃ st, (rq.ordered.take 200).getLast? = some st ∧
        obj st.modelDump = last := by
      rw [hnone, List.getLast?_map] at hlast
      exact Option.map_eq_some_iff.mp hlast
    obtain rfl : st.jobId = id := Option.some.inj hid
    have hne : st.jobId ≠ "" := by
      intro hempty
      rw [hempty] at hid hrest
      exact not_pulls_empty hlast hid _ hrest
    refine ⟨?_,(jobId_last_eq_empty_iff hst).not.mp hne⟩
    -- the second delta is empty, so that the first one has brought all jobs
    rw [hrest.eq_nil (buildQueueDelta_last hne hst), List.append_nil, hnone] at hbodies
    have hcount := congrArg List.length hbodies
    rw [List.length_map, List.length_map, List.length_take, hlength] at hcount
    omega

/-- Jobs that fit into one delta are all brought by it. -/
theorem bringsAll_of_small (hsize : rq.entries.length ≤ 200)
    (hnamed : rq.entries.map Keyed.key ≠ [""]) : BringsAll rq := by
  have hnone := buildQueueDelta_none rq
  rw [take_ordered hsize] at hnone
  refine ⟨rq.ordered,?_,rq.ordered_sorted,rq.ordered_perm⟩
  cases hlast : rq.ordered.getLast? with
  | none =>
    rw [List.getLast?_eq_none_iff.mp hlast] at hnone ⊢
    exact Pulls.done hnone
  | some st =>
    have hst : (rq.ordered.take 200).getLast? = some st := by
      rw [take_ordered hsize, hlast]
    have hne : st.jobId ≠ "" := (jobId_last_eq_empty_iff hst).not.mpr hnamed
    have hfirst : (buildQueueDelta rq none).getLast? = some (obj st.modelDump) := by
      rw [hnone, List.getLast?_map, hlast]
      rfl
    have hpulls := Pulls.more hfirst (jobIdOf_modelDump st)
      (Pulls.done (buildQueueDelta_last hne hst))
    rw [List.append_nil, hnone] at hpulls
    exact hpulls

/-- Pulling brings all jobs exactly when there are no more than 200 of them, and not one alone
with the empty name. -/
theorem bringsAll_iff (rq : ReplicatedQueue) :
    BringsAll rq ↔ rq.entries.length ≤ 200 ∧ rq.entries.map Keyed.key ≠ [""] :=
  ⟨small_of_bringsAll,fun h => bringsAll_of_small h.1 h.2⟩

/-- The jobs `j`, `jj`, and so on. -/
def manyJobs (n : ℕ) : ReplicatedQueue where
  entries := (List.range n).map fun i =>
    ⟨{ jobId := String.ofList (List.replicate (i+1) 'j'), claimToken := "t" },45⟩
  nodup := by
    rw [List.map_map]
    refine List.nodup_range.map fun i i' h => ?_
    have hlength := congrArg (fun s : String => s.toList.length) h
    simpa using hlength

/-- One job more than a delta holds. -/
theorem not_bringsAll_manyJobs : ¬ BringsAll (manyJobs 201) := by
  intro h
  have hsize := (small_of_bringsAll h).1
  rw [manyJobs, List.length_map, List.length_range] at hsize
  omega

end Arsonist.DistributedQueue
