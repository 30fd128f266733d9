import Arsonist.Federation.Processes
import Arsonist.Federation.WatchLoop

/-! The two views of the controller agree: a process that nothing interrupts does what the
handler does when it is taken as a whole. -/
namespace Arsonist.Federation
open Arsonist.Library Arsonist.Mesh Relation

/-- What a request does to the registry when it is taken as a whole. -/
def whole (reg : FederationRegistry) (now : ℚ) (pushError : Option String) :
    Request → FederationRegistry
  | .submit body fresh => (submitGlobalJob reg now body fresh pushError).1
  | .complete payload =>
    match globalJobComplete reg now payload with
    | .error _ => reg
    | .ok after => after
  | .heartbeat payload =>
    match applyHeartbeat reg now payload with
    | none => reg
    | some written => written.1
  | .watch timeout => (watchIteration reg now timeout).1

/-- The process gets from `p` to `q` on its own, and leaves the registry and the time so. -/
def Leads (pushError : Option String) (s : ControllerState) (p : Process)
    (reg : FederationRegistry) (q : Process) : Prop :=
  ∃ t, ReflTransGen (controller.Alone pushError) (s,p) (t,q) ∧ t.registry = reg ∧ t.now = s.now

variable {pushError : Option String} {s : ControllerState}

theorem Leads.refl (p : Process) : Leads pushError s p s.registry p := ⟨s,.refl,rfl,rfl⟩

theorem Leads.step {p q : Process} {reg : FederationRegistry}
    (hnow : (next s p pushError).1.now = s.now)
    (h : Leads pushError (next s p pushError).1 (next s p pushError).2 reg q) :
    Leads pushError s p reg q := by
  obtain ⟨t,hsteps,hreg,ht⟩ := h
  exact ⟨t,.head rfl hsteps,hreg,ht.trans hnow⟩

/-- A step that takes the process to its end. -/
theorem Leads.last {p q : Process} (hnow : (next s p pushError).1.now = s.now)
    (hq : (next s p pushError).2 = q) :
    Leads pushError s p (next s p pushError).1.registry q :=
  Leads.step hnow (hq ▸ Leads.refl _)

/-- One stretch after the other. What the second does is known for any state with the registry
that the first leaves. -/
theorem Leads.trans {p q r : Process} {mid reg : FederationRegistry}
    (h : Leads pushError s p mid q)
    (hnext : ∀ t : ControllerState, t.registry = mid → t.now = s.now →
      Leads pushError t q reg r) : Leads pushError s p reg r := by
  obtain ⟨t,hsteps,hreg,hnow⟩ := h
  obtain ⟨u,hmore,hlast,hsame⟩ := hnext t hreg hnow
  exact ⟨u,hsteps.trans hmore,hlast,hsame.trans hnow⟩

theorem leads_sweeping (timeout : ℚ) (todo : List ClusterRecord) (dead : List ClusterId)
    (s : ControllerState) :
    Leads pushError s (.sweeping timeout todo dead)
      (todo.foldl (fun reg c => reg.upsertCluster (offlineRecord c)) s.registry)
      (.failover (dead ++ todo.map fun c => c.clusterId)) := by
  induction todo generalizing s dead with
  | nil =>
    rw [List.map_nil, List.append_nil]
    exact Leads.last rfl rfl
  | cons c todo ih =>
    have hrest := ih (dead ++ [c.clusterId]) (s.upsert (offlineRecord c))
    rw [List.append_assoc] at hrest
    exact Leads.step rfl hrest

theorem leads_rerouting (dead : ClusterId) (others : List ClusterRecord)
    (todo : List GlobalJobRecord) (pushes : PendingPushes) (rest : List ClusterId)
    (s : ControllerState) :
    Leads pushError s (.rerouting dead others todo pushes rest)
      (todo.foldl (fun reg job => reg.saveGlobalJob s.now (rerouteJob s.now dead others job).1)
        s.registry)
      (.handing (pushes ++ todo.flatMap (reroutePush s.now dead others)) rest) := by
  induction todo generalizing s pushes with
  | nil =>
    rw [List.flatMap_nil, List.append_nil]
    exact Leads.last rfl rfl
  | cons job todo ih =>
    have hrest := ih (pushes ++ reroutePush s.now dead others job)
      (s.save (rerouteJob s.now dead others job).1)
    rw [List.append_assoc] at hrest
    exact Leads.step rfl hrest

theorem leads_handing (pushes : PendingPushes) (rest : List ClusterId) (s : ControllerState) :
    Leads pushError s (.handing pushes rest) s.registry (.failover rest) := by
  induction pushes generalizing s with
  | nil => exact Leads.last rfl rfl
  | cons push pushes ih => exact Leads.step rfl (ih _)

/-- The failover of one cluster, up to the end of its pushes. -/
theorem leads_failover_cons (dead : ClusterId) (rest : List ClusterId) (s : ControllerState) :
    Leads pushError s (.failover (dead :: rest))
      (rerouteJobsFromDeadCluster s.registry s.now dead).1 (.failover rest) := by
  refine Leads.step rfl (Leads.step rfl ?_)
  refine Leads.trans (leads_rerouting dead _ _ [] rest s) fun t ht _ => ?_
  have hhanding : Leads pushError t (.handing ([] ++ (s.registry.listGlobalJobs.filter
      (affected dead)).flatMap (reroutePush s.now dead (otherClusters s.registry dead))) rest)
      t.registry (.failover rest) := leads_handing _ rest t
  rw [ht] at hhanding
  exact hhanding

theorem leads_failover (dead : List ClusterId) (s : ControllerState) :
    Leads pushError s (.failover dead) (failoverAll s.now s.registry dead).1 .done := by
  induction dead generalizing s with
  | nil => exact Leads.last rfl rfl
  | cons d rest ih =>
    refine Leads.trans (leads_failover_cons d rest s) fun t ht hnow => ?_
    have hrest := ih t
    rw [ht, hnow] at hrest
    exact hrest

theorem leads_watch (timeout : ℚ) (s : ControllerState) :
    Leads pushError s (.watching timeout) (watchIteration s.registry s.now timeout).1 .done := by
  refine Leads.step rfl (Leads.step rfl ?_)
  refine Leads.trans (leads_sweeping timeout _ [] s) fun t ht hnow => ?_
  have hfailover : Leads pushError t (.failover (sweepStaleClusters s.registry s.now timeout).2)
      _ .done := leads_failover _ t
  rw [ht, hnow] at hfailover
  exact hfailover

theorem leads_submit (body : SubmitGlobalJobBody) (fresh : GlobalJobId) (s : ControllerState) :
    Leads pushError s (.submitting (submittedId body fresh) body)
      (submitGlobalJob s.registry s.now body fresh pushError).1 .done := by
  let gj := (acceptedJob s.now (submittedId body fresh) body).stamp s.now
  let accepted := s.save (acceptedJob s.now (submittedId body fresh) body)
  let target := (decideRoute accepted.registry gj).targetClusterId
  let routed := (routedJob s.now gj target).stamp s.now
  let saved := accepted.save (routedJob s.now gj target)
  refine Leads.step rfl ?_
  change Leads pushError accepted (.deciding gj) _ _
  by_cases htarget : target = ""
  · have hdecide : next accepted (.deciding gj) pushError = (accepted,.done) := if_pos htarget
    have hwhole : (submitGlobalJob s.registry s.now body fresh pushError).1 =
        accepted.registry := congrArg Prod.fst (if_pos htarget)
    rw [hwhole]
    refine Leads.step ?_ ?_
    · rw [hdecide]
    · rw [hdecide]
      exact Leads.refl _
  · have hdecide : next accepted (.deciding gj) pushError = (accepted,.routing gj target) :=
      if_neg htarget
    obtain ⟨c,hget,-⟩ := getCluster_decideRoute htarget
    have hfetch : next saved (.fetching routed target) pushError = (saved,.pushing routed c) := by
      have hsaved : saved.registry.getCluster target = some c := hget
      rw [next, hsaved]
    have hwhole : (submitGlobalJob s.registry s.now body fresh pushError).1 =
        (next saved (.pushing routed c) pushError).1.registry := by
      unfold submitGlobalJob
      refine (congrArg Prod.fst (if_neg htarget)).trans ?_
      have hsaved : ((s.registry.saveGlobalJob s.now gj).saveGlobalJob s.now routed).getCluster
          target = some c := hget
      dsimp only
      erw [hsaved]
      cases pushError <;> rfl
    rw [hwhole]
    refine Leads.step (by rw [hdecide]) ?_
    rw [hdecide]
    refine Leads.step rfl ?_
    change Leads pushError saved (.fetching routed target) _ _
    refine Leads.step (by rw [hfetch]) ?_
    rw [hfetch]
    cases pushError with
    | none => exact Leads.last rfl rfl
    | some exc => exact Leads.last rfl rfl

theorem leads_complete (payload : GlobalJobCompletePayload) (s : ControllerState) :
    Leads pushError s (.completing payload)
      (whole s.registry s.now pushError (.complete payload)) .done := by
  have hnow : (next s (.completing payload) pushError).1.now = s.now := by
    rw [next]
    split <;> rfl
  refine Leads.step hnow ?_
  rw [next, whole, globalJobComplete]
  cases s.registry.getGlobalJob payload.jobId with
  | none => exact Leads.refl _
  | some job => exact Leads.last rfl rfl

theorem leads_heartbeat (payload : FederationHeartbeatPayload) (s : ControllerState) :
    Leads pushError s (.beating payload)
      (whole s.registry s.now pushError (.heartbeat payload)) .done := by
  have hnow : (next s (.beating payload) pushError).1.now = s.now := by
    rw [next]
    split <;> rfl
  refine Leads.step hnow ?_
  rw [next, whole, applyHeartbeat]
  cases s.registry.getCluster payload.clusterId with
  | none => exact Leads.refl _
  | some existing => exact Leads.step rfl (Leads.last rfl rfl)

/-- Every request that runs without interruption comes to its end and does to the registry what
the handler does when it is taken as a whole. -/
theorem whole_of_alone (s : ControllerState) (request : Request) (pushError : Option String) :
    Leads pushError s (enter request) (whole s.registry s.now pushError request) .done := by
  cases request with
  | submit body fresh => exact leads_submit body fresh s
  | complete payload => exact leads_complete payload s
  | heartbeat payload => exact leads_heartbeat payload s
  | watch timeout => exact leads_watch timeout s

/-- The same in a controller where no other process takes a step meanwhile. -/
theorem whole_of_start (s : Controller) (request : Request) (pushError : Option String) :
    ∃ n t, run (Pool.step controller) s
        (.start request :: List.replicate n (.advance s.procs.length pushError)) = t ∧
      t.shared.registry = whole s.shared.registry s.shared.now pushError request ∧
      t.procs = s.procs ++ [.done] := by
  obtain ⟨t,hsteps,hreg,-⟩ := whole_of_alone s.shared request pushError
  have hget : (s.procs ++ [enter request])[s.procs.length]? = some (enter request) := by simp
  obtain ⟨n,hn⟩ := Pool.run_alone hsteps hget
  refine ⟨n,_,rfl,?_,?_⟩
  · rw [run_cons]
    change (run (Pool.step controller) ⟨s.shared,s.procs ++ [enter request]⟩ _).shared.registry = _
    rw [hn, hreg]
  · rw [run_cons]
    change (run (Pool.step controller) ⟨s.shared,s.procs ++ [enter request]⟩ _).procs = _
    rw [hn]
    simp

/-- The operations over which the watch loop is studied are the registrations and the requests
taken as a whole. -/
theorem registry_exec (s : Observed) (op : ControllerOp) :
    (s.exec op).registry =
      match op with
      | .register now body => (outside ⟨s.registry,now,[],[]⟩ (.register body)).registry
      | .heartbeat now payload => whole s.registry now none (.heartbeat payload)
      | .submit now body fresh pushError => whole s.registry now pushError (.submit body fresh)
      | .complete now payload => whole s.registry now none (.complete payload)
      | .watch now timeout => whole s.registry now none (.watch timeout) := by
  cases op with
  | register now body =>
    rw [Observed.exec, registerCluster]
    dsimp only
    rw [outside]
    dsimp only
    cases urlHolder s.registry body <;> rfl
  | heartbeat now payload =>
    rw [Observed.exec]
    dsimp only
    rw [whole]
    cases applyHeartbeat s.registry now payload <;> rfl
  | complete now payload =>
    rw [Observed.exec]
    dsimp only
    rw [whole]
    cases globalJobComplete s.registry now payload <;> rfl
  | _ => rfl

end Arsonist.Federation
