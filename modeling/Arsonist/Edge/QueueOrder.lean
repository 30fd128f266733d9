import Arsonist.Edge.NodeLoads

/-! The order of the queue of the edge scheduler. A submission sorts the whole queue, but the
workloads of a lost node are put back at its end, and stay there until the next submission. -/
namespace Arsonist.Edge.EdgeScheduler
open Arsonist.Library

/-- A workload that `unregister_node` has put back, with no submission after that. -/
def PutBack (calls : List EdgeSchedulerCall) (wl : EdgeWorkload) : Prop :=
  ∃ p nodeId q, calls = p ++ .unregisterNode nodeId :: q ∧ (∀ c ∈ q, c.submitted = []) ∧
    wl ∈ (run EdgeScheduler.exec {} p).toRequeue nodeId

/-- There is a node that `schedule_next` can give a workload to. -/
def HasRoom (s : EdgeScheduler) : Prop := ∃ nodeId, s.pickNode = some nodeId ∧ nodeId ≠ ""

/-- The queue after some calls: what the last submission sorted, and what was put back since. -/
structure Ordered (calls : List EdgeSchedulerCall) (sorted back : List EdgeWorkload) : Prop where
  queue : (run EdgeScheduler.exec {} calls).queue = sorted ++ back
  sorted : sorted.Pairwise fun a b => b.priority ≤ a.priority
  back : ∀ wl ∈ back, PutBack calls wl

theorem PutBack.concat {calls : List EdgeSchedulerCall} {wl : EdgeWorkload} (h : PutBack calls wl)
    {c : EdgeSchedulerCall} (hc : c.submitted = []) : PutBack (calls ++ [c]) wl := by
  obtain ⟨p,nodeId,q,rfl,hq,hwl⟩ := h
  refine ⟨p,nodeId,q ++ [c],by rw [List.append_assoc]; rfl,?_,hwl⟩
  exact List.forall_mem_append.mpr ⟨hq,List.forall_mem_singleton.mpr hc⟩

/-- What is returned is the first of the queue, with another status. -/
theorem exists_returned_iff {s : EdgeScheduler} {now : ℚ} {priority : ℤ} :
    (∃ wl, (s.scheduleNext now).2 = some wl ∧ wl.priority = priority) ↔
      s.HasRoom ∧ ∃ first ∈ s.queue.head?, first.priority = priority := by
  constructor
  · rintro ⟨wl,h,hwl⟩
    obtain hnone | ⟨first,queue,nodeId,hqueue,hpick,hid,hnext⟩ := scheduleNext_cases s now
    · rw [hnone] at h
      cases h
    · rw [hnext] at h
      cases h
      exact ⟨⟨nodeId,hpick,hid⟩,first,by rw [hqueue]; rfl,hwl⟩
  · rintro ⟨⟨nodeId,hpick,hid⟩,first,hfirst,hpriority⟩
    obtain ⟨queue,hqueue⟩ := List.head?_eq_some_iff.mp hfirst
    refine ⟨first.started nodeId now,?_,hpriority⟩
    rw [scheduleNext, hqueue, hpick]
    dsimp only
    rw [if_neg hid]

variable {calls : List EdgeSchedulerCall} {sorted back : List EdgeWorkload}

/-- A submission sorts the whole queue. -/
theorem ordered_submit (calls : List EdgeSchedulerCall) (workload : EdgeWorkload) :
    ∃ sorted, Ordered (calls ++ [.submit workload]) sorted [] := by
  refine ⟨((run EdgeScheduler.exec {} calls).submit workload).queue,?_,?_,nofun⟩
  · rw [run_concat, List.append_nil]
    rfl
  · have : Std.Total fun a b : EdgeWorkload => b.priority ≤ a.priority :=
      ⟨fun a b => le_total b.priority a.priority⟩
    have : IsTrans EdgeWorkload fun a b => b.priority ≤ a.priority :=
      ⟨fun _ _ _ hab hbc => hbc.trans hab⟩
    exact List.pairwise_insertionSort _ _

theorem Ordered.unregisterNode (h : Ordered calls sorted back) (nodeId : String) :
    Ordered (calls ++ [.unregisterNode nodeId]) sorted
      (back ++ (run EdgeScheduler.exec {} calls).toRequeue nodeId) := by
  refine ⟨?_,h.sorted,List.forall_mem_append.mpr ⟨fun wl hwl => (h.back wl hwl).concat rfl,?_⟩⟩
  · rw [run_concat, ← List.append_assoc, ← h.queue]
    rfl
  · exact fun wl hwl => ⟨calls,nodeId,[],rfl,nofun,hwl⟩

/-- A call that submits nothing and adds nothing to the queue, but may take the first away. -/
theorem Ordered.of_queue (h : Ordered calls sorted back) {c : EdgeSchedulerCall}
    (hc : c.submitted = []) {queue : List EdgeWorkload}
    (hcalls : (run EdgeScheduler.exec {} calls).queue = queue)
    (hnext : ((run EdgeScheduler.exec {} calls).exec c).queue = queue ∨
      ((run EdgeScheduler.exec {} calls).exec c).queue = queue.tail) :
    ∃ sorted back, Ordered (calls ++ [c]) sorted back := by
  have hback : ∀ wl ∈ back, PutBack (calls ++ [c]) wl := fun wl hwl => (h.back wl hwl).concat hc
  rw [h.queue] at hcalls
  subst hcalls
  obtain hsame | htail := hnext
  · exact ⟨sorted,back,by rw [run_concat, hsame],h.sorted,hback⟩
  · cases sorted with
    | nil =>
      exact ⟨[],back.tail,by rw [run_concat, htail]; rfl,.nil,
        fun wl hwl => hback wl (List.mem_of_mem_tail hwl)⟩
    | cons first sorted =>
      exact ⟨sorted,back,by rw [run_concat, htail]; rfl,(List.pairwise_cons.mp h.sorted).2,hback⟩

theorem exists_ordered (calls : List EdgeSchedulerCall) :
    ∃ sorted back, Ordered calls sorted back := by
  induction calls using List.reverseRecOn with
  | nil => exact ⟨[],[],rfl,.nil,nofun⟩
  | append_singleton calls c ih =>
    obtain ⟨sorted,back,h⟩ := ih
    cases c with
    | submit workload =>
      obtain ⟨sorted,hsubmit⟩ := ordered_submit calls workload
      exact ⟨sorted,[],hsubmit⟩
    | unregisterNode nodeId => exact ⟨sorted,_,h.unregisterNode nodeId⟩
    | registerNode nodeId capacity => exact h.of_queue rfl rfl (Or.inl rfl)
    | complete now workloadId success =>
      refine h.of_queue rfl rfl (Or.inl ?_)
      change ((run EdgeScheduler.exec {} calls).complete now workloadId success).1.queue = _
      rw [complete]
      split <;> rfl
    | scheduleNext now =>
      refine h.of_queue rfl rfl ?_
      change ((run EdgeScheduler.exec {} calls).scheduleNext now).1.queue = _ ∨
        ((run EdgeScheduler.exec {} calls).scheduleNext now).1.queue = _
      obtain hnone | ⟨first,queue,nodeId,hqueue,-,-,hnext⟩ :=
        scheduleNext_cases (run EdgeScheduler.exec {} calls) now
      · rw [hnone]
        exact Or.inl rfl
      · rw [hnext, hqueue]
        exact Or.inr rfl

/-- The first of the queue has the highest priority when none that was put back has a higher one. -/
theorem le_first {first wl : EdgeWorkload}
    (hfirst : first ∈ (run EdgeScheduler.exec {} calls).queue.head?)
    (h : ∀ wl ∈ (run EdgeScheduler.exec {} calls).queue, PutBack calls wl →
      wl.priority ≤ first.priority)
    (hwl : wl ∈ (run EdgeScheduler.exec {} calls).queue) : wl.priority ≤ first.priority := by
  obtain ⟨sorted,back,hordered⟩ := exists_ordered calls
  have hqueue := hwl
  rw [hordered.queue, List.mem_append] at hqueue
  obtain hsorted | hback := hqueue
  · cases sorted with
    | nil => cases hsorted
    | cons a sorted =>
      rw [hordered.queue, List.cons_append, List.head?_cons, Option.mem_some_iff] at hfirst
      subst hfirst
      obtain rfl | hmem := List.mem_cons.mp hsorted
      · exact le_rfl
      · exact (List.pairwise_cons.mp hordered.sorted).1 wl hmem
  · exact h wl hwl (hordered.back wl hback)

/-- A workload that is returned has the highest priority of those queued exactly when, at that
moment, none with a higher priority than the first of the queue has been put back by
`unregister_node` since the last submission. -/
theorem highest_returned_iff (calls : List EdgeSchedulerCall) :
    (∀ p now q, calls = p ++ .scheduleNext now :: q →
        ∀ wl, ((run EdgeScheduler.exec {} p).scheduleNext now).2 = some wl →
        ∀ other ∈ (run EdgeScheduler.exec {} p).queue, other.priority ≤ wl.priority) ↔
      ∀ p now q, calls = p ++ .scheduleNext now :: q → (run EdgeScheduler.exec {} p).HasRoom →
        ∀ first ∈ (run EdgeScheduler.exec {} p).queue.head?,
        ∀ other ∈ (run EdgeScheduler.exec {} p).queue, PutBack p other →
          other.priority ≤ first.priority := by
  constructor
  · intro h p now q hcalls hroom first hfirst other hother _
    obtain ⟨wl,hreturned,hpriority⟩ := exists_returned_iff.mpr ⟨hroom,first,hfirst,rfl⟩
    rw [← hpriority]
    exact h p now q hcalls wl hreturned other hother
  · intro h p now q hcalls wl hreturned other hother
    obtain ⟨hroom,first,hfirst,hpriority⟩ := exists_returned_iff.mp ⟨wl,hreturned,rfl⟩
    rw [← hpriority]
    exact le_first hfirst (h p now q hcalls hroom first hfirst) hother

/-- A workload of priority 5 runs on a node that is lost while one of priority 1 is queued. -/
def urgentLost : List EdgeSchedulerCall :=
  [.registerNode "a" 1,.submit { workloadId := "w", priority := 5 },.scheduleNext 1,
    .submit { workloadId := "v", priority := 1 },.unregisterNode "a",.registerNode "b" 1]

theorem not_highest_returned :
    ¬ ∀ (calls p : List EdgeSchedulerCall) (now : ℚ) (q : List EdgeSchedulerCall),
      calls = p ++ .scheduleNext now :: q →
      ∀ wl, ((run EdgeScheduler.exec {} p).scheduleNext now).2 = some wl →
      ∀ other ∈ (run EdgeScheduler.exec {} p).queue, other.priority ≤ wl.priority := by
  intro h
  have hle := h _ urgentLost 2 [] rfl
    { workloadId := "v", priority := 1, startedAt := 2, status := .running, assignedNode := "b" }
    (by decide +kernel)
    { workloadId := "w", priority := 5, startedAt := 1 } (by decide +kernel)
  exact absurd hle (by decide)

end Arsonist.Edge.EdgeScheduler
