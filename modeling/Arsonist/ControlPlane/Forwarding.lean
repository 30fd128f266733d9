import Arsonist.ControlPlane.Entries
import Mathlib.Logic.Function.Basic

/-! Clusters that forward jobs to one another. A forward reads the job, sends it and marks the
replicated state as migrated; the queue and the job table of the source, which its scheduler
reads, keep the job. -/
namespace Arsonist.ControlPlane
open Arsonist.Library Arsonist.Shared Arsonist.Mesh Arsonist.Federation

/-! ### The calls of the scheduler -/

/-- No job is sent to a node. -/
def Quiet (as : List Action) : Prop := ∀ n j, .dispatched n j ∉ as

namespace State
variable (cfg : Config) (s : State)

/-- The state in which an operation calls the scheduler, if it does. -/
def schedulerCall : Op → Option (State × Surroundings)
  | .submitJob payload env => some (s.acceptJob cfg payload,env)
  | .inboundJob payload origin env =>
    match s.job? payload.id with
    | some _ => none
    | none => some (s.enqueueJob cfg (s.inboundRecord cfg payload origin),env)
  | .scheduleOnce env => some (s,env)
  | .jobResult node id payload env =>
    match s.job? id with
    | none => none
    | some job => some (s.recordResult cfg node job payload,env)
  | _ => none

/-- What the scheduler does in its call. -/
def callActions : Option (State × Surroundings) → List Action
  | none => []
  | some (t,env) => t.scheduleActions cfg env

/-- The step sends a job to nodes. -/
def Sends (id : JobId) : Option (State × Surroundings) → Prop
  | none => False
  | some (t,env) => env.leader = true ∧ ∃ job, t.nextJob cfg = some job ∧ job.id = id ∧
    Dispatches t.memory.nodes.entries job

theorem quiet_asideActions (job : JobId) (n : ℕ) : Quiet (asideActions job n) := by
  intro node j h
  rcases asideActions_job h with he | he <;> exact absurd he (by simp)

/-- An operation is quiet up to its call of the scheduler. -/
theorem exec_actions (op : Op) (hk : s.jobSide.Known) :
    ∃ pre, Quiet pre ∧
      (s.exec cfg op).actions = s.actions ++ (pre ++ callActions cfg (s.schedulerCall cfg op)) := by
  have hall : (s.exec cfg op).actions = s.actions ++ s.opActions cfg op :=
    (edits_exec cfg s op hk).actions
  rw [hall]
  have hnone : s.opActions cfg op = [] → s.schedulerCall cfg op = none →
      ∃ pre, Quiet pre ∧ s.actions ++ s.opActions cfg op =
        s.actions ++ (pre ++ callActions cfg (s.schedulerCall cfg op)) := by
    intro ha hc
    refine ⟨[],fun _ _ => by simp,?_⟩
    rw [ha, hc]
    rfl
  cases op with
  | submitJob payload env => exact ⟨[.submitted payload.id false],fun _ _ => by simp,rfl⟩
  | inboundJob payload origin env =>
    cases hid : s.job? payload.id with
    | some job =>
      apply hnone
      · rw [opActions]
        rw [hid]
      · rw [schedulerCall]
        rw [hid]
    | none =>
      refine ⟨[.submitted payload.id true],fun _ _ => by simp,?_⟩
      rw [opActions, schedulerCall]
      rw [hid]
      rfl
  | scheduleOnce env => exact ⟨[],fun _ _ => by simp,rfl⟩
  | jobResult node id payload env =>
    cases hid : s.job? id with
    | none =>
      apply hnone
      · rw [opActions]
        rw [hid]
      · rw [schedulerCall]
        rw [hid]
    | some job =>
      refine ⟨recordActions cfg job payload,?_,?_⟩
      · intro n j h
        obtain he | ⟨-,he⟩ | ⟨-,h⟩ := mem_recordActions cfg h
        · exact absurd he (by simp)
        · exact absurd he (by simp)
        · exact quiet_asideActions _ _ n j h
      · rw [opActions_jobResult cfg s hid, schedulerCall]
        rw [hid]
        rfl
  | checkNodesOnce deadAfterSec =>
    refine ⟨s.opActions cfg (.checkNodesOnce deadAfterSec),?_,by simp [schedulerCall, callActions]⟩
    intro n j h
    obtain ⟨_,-,id,-,c,-,h⟩ := mem_checkActions.mp h
    exact quiet_asideActions _ _ n j h
  | clock now => exact hnone rfl rfl
  | registerNode payload => exact hnone rfl rfl
  | heartbeat node payload => exact hnone rfl rfl
  | executionEnds node id => exact hnone rfl rfl

/-- A job is sent to some node exactly when the scheduler gets as far as dispatching it. -/
theorem sends_iff (id : JobId) (call : Option (State × Surroundings)) :
    Sends cfg id call ↔ ∃ n, .dispatched n id ∈ callActions cfg call := by
  cases call with
  | none => simp [Sends, callActions]
  | some call =>
    obtain ⟨t,env⟩ := call
    constructor
    · rintro ⟨hlead,job,hnext,rfl,hdis⟩
      have hpos : 0 < (candidateIds t.memory.nodes.entries job).length := by
        have := job.requiredNodes_ge
        have := hdis.2.2
        omega
      obtain ⟨n,hn⟩ := List.exists_mem_of_length_pos hpos
      refine ⟨n,?_⟩
      rw [callActions, scheduleActions, if_pos hlead, hnext]
      dsimp only
      rw [placeActions, if_neg hdis.1, if_pos hdis, roundActions]
      simp [hn]
    · rintro ⟨n,hn⟩
      have hlead : env.leader = true := by
        by_contra hl
        rw [callActions, scheduleActions, if_neg hl] at hn
        simp at hn
      obtain ⟨job,hnext,hmem⟩ := mem_scheduleActions cfg t hn
      refine ⟨hlead,job,hnext,(placeActions_job hmem).symm,?_⟩
      by_contra hdis
      unfold placeActions at hmem
      split_ifs at hmem
      · simp at hmem
      · exact quiet_asideActions _ _ _ _ hmem

end State

namespace MeshCluster
variable (cfg : Config) (gate : MeshGate) (inbound : String) (c : MeshCluster)

/-- The state in which a request calls the scheduler, if it does. -/
def entryCall (env : Surroundings) (entry : Entry) : Option (State × Surroundings) :=
  let r := c.intake cfg gate inbound entry
  if r.2.2 then some (r.1.state,env) else none

/-- A request that brings a job submits it or leaves the jobs alone. -/
theorem edits_intake (entry : Entry) :
    ((c.intake cfg gate inbound entry).1 = c ∧ (c.intake cfg gate inbound entry).2.2 = false) ∨
      ∃ id fed, Edits c.state.jobSide [.submitted id fed]
        (c.intake cfg gate inbound entry).1.state.jobSide ∧
        (c.intake cfg gate inbound entry).2.2 = true := by
  cases entry with
  | submitJob payload =>
    exact .inr ⟨payload.id,false,(State.does_acceptJob cfg c.state payload).toEdits,rfl⟩
  | inboundJob body sig ts =>
    unfold intake
    dsimp only
    cases c.readInbound gate inbound body sig ts with
    | error answer => exact .inl ⟨rfl,rfl⟩
    | ok payload =>
      dsimp only
      cases c.state.job? payload.globalJobId with
      | some job => exact .inl ⟨rfl,rfl⟩
      | none =>
        dsimp only
        cases inboundRequest payload with
        | error name => exact .inl ⟨rfl,rfl⟩
        | ok jr =>
          exact .inr ⟨jr.id,true,(State.does_acceptInbound cfg c.state jr _).toEdits,rfl⟩
  | receiveRoutedJob body sig ts =>
    unfold intake
    dsimp only
    cases c.readRouted gate body sig ts with
    | error answer => exact .inl ⟨rfl,rfl⟩
    | ok read =>
      obtain ⟨rt,jr⟩ := read
      dsimp only
      cases c.state.job? jr.id with
      | some job => exact .inl ⟨rfl,rfl⟩
      | none =>
        refine .inr ⟨jr.id,false,?_,rfl⟩
        exact (State.does_enqueueJob cfg c.state (routedRecord c.state jr (sourceOf body))
          rfl rfl).toEdits

theorem enter_state (env : Surroundings) (entry : Entry) :
    (c.enter cfg gate inbound env entry).1.state =
      if (c.intake cfg gate inbound entry).2.2 then
        (c.intake cfg gate inbound entry).1.state.scheduleOnce cfg env
      else (c.intake cfg gate inbound entry).1.state := by
  unfold enter
  obtain ⟨d,answer,called⟩ := c.intake cfg gate inbound entry
  cases called with
  | false => rfl
  | true => cases entry <;> rfl

/-- A request is quiet up to its call of the scheduler. -/
theorem enter_actions (env : Surroundings) (entry : Entry) (hk : c.state.jobSide.Known) :
    (c.enter cfg gate inbound env entry).1.state.jobSide.Known ∧ ∃ pre, Quiet pre ∧
      (c.enter cfg gate inbound env entry).1.state.actions = c.state.actions ++
        (pre ++ State.callActions cfg (c.entryCall cfg gate inbound env entry)) := by
  rw [enter_state, entryCall]
  obtain ⟨hsame,hno⟩ | ⟨id,fed,hedits,hyes⟩ := c.edits_intake cfg gate inbound entry
  · rw [hno, hsame]
    exact ⟨hk,[],fun _ _ => by simp,by simp [State.callActions]⟩
  · rw [if_pos hyes, if_pos hyes]
    have hsched := State.edits_scheduleOnce cfg _ env (hedits.known hk)
    have hboth := hedits.trans hsched
    exact ⟨hboth.known hk,[.submitted id fed],fun _ _ => by simp,hboth.actions⟩

end MeshCluster

/-! ### Several clusters -/

/-- A forwarding request under way, and the status code of the peer's answer once there is
one. -/
structure Exchange (κ : Type) where
  source : κ
  out : Outgoing
  answer : Option ℕ := none

/-- The clusters, the requests under way, and history: which cluster has been told that which
job is forwarded. -/
structure MeshSystem (κ : Type) where
  cluster : κ → MeshCluster
  exchanges : List (Exchange κ) := []
  forwarded : List (κ × JobId) := []

/-- The environment of the clusters, and which of them a URL leads to. -/
structure MeshConfig (κ : Type) where
  cfg : κ → Config
  gate : κ → MeshGate
  inbound : κ → String
  address : String → Option κ

/-- What happens next: an operation of a cluster, a request that brings a job, gossip, the
start of a forward, the arrival of its request at the peer, or its end. A forward ends with
the peer's answer or, at any time, with an exception. -/
inductive MeshEvent (κ : Type)
  | op (k : κ) (op : Op)
  | enter (k : κ) (entry : Entry) (env : Surroundings)
  | gossip (k : κ) (states : List PeerState)
  | forward (k : κ) (body : Json.Object) (sig ts : Option String)
  | deliver (i : ℕ) (env : Surroundings)
  | answered (i : ℕ)
  | broken (i : ℕ) (error : String)

namespace MeshSystem
variable {κ : Type} [DecidableEq κ] (mc : MeshConfig κ)

def put (s : MeshSystem κ) (k : κ) (c : MeshCluster) : MeshSystem κ :=
  { s with cluster := Function.update s.cluster k c }

/-- The request that a forward brings to its peer. -/
def routedEntry (out : Outgoing) : Entry :=
  .receiveRoutedJob out.payload (some out.signature) (some out.timestamp)

def step (s : MeshSystem κ) : MeshEvent κ → MeshSystem κ
  | .op k op => s.put k { s.cluster k with state := (s.cluster k).state.exec (mc.cfg k) op }
  | .enter k entry env =>
    s.put k ((s.cluster k).enter (mc.cfg k) (mc.gate k) (mc.inbound k) env entry).1
  | .gossip k states =>
    s.put k ((s.cluster k).count fun rt =>
      { rt with
        registry := (PeerRegistry.mergeState (s.cluster k).state.now rt.registry states).1 })
  | .forward k body sig ts =>
    match (s.cluster k).forwardJob (mc.gate k) body sig ts with
    | (c,.error _) => s.put k c
    | (c,.ok out) => { s.put k c with exchanges := s.exchanges ++ [⟨k,out,none⟩] }
  | .deliver i env =>
    match s.exchanges[i]? with
    | none => s
    | some ex =>
      match ex.answer, mc.address ex.out.decision.targetPublicUrl with
      | none, some k =>
        let r := (s.cluster k).enter (mc.cfg k) (mc.gate k) (mc.inbound k) env
          (routedEntry ex.out)
        { s.put k r.1 with exchanges := s.exchanges.set i { ex with answer := some r.2.code } }
      | _, _ => s
  | .answered i =>
    match s.exchanges[i]? with
    | none => s
    | some ex =>
      match ex.answer with
      | none => s
      | some code =>
        match (s.cluster ex.source).forwardEnds ex.out (.inl code) with
        | (c,.forwarded _ _) =>
          { s.put ex.source c with
            exchanges := s.exchanges.eraseIdx i
            forwarded := s.forwarded ++ [(ex.source,ex.out.jobId)] }
        | (c,_) => { s.put ex.source c with exchanges := s.exchanges.eraseIdx i }
  | .broken i error =>
    match s.exchanges[i]? with
    | none => s
    | some ex =>
      { s.put ex.source ((s.cluster ex.source).forwardEnds ex.out (.inr error)).1 with
        exchanges := s.exchanges.eraseIdx i }

/-- The cluster that an event makes call its scheduler, and the call. -/
def call (s : MeshSystem κ) : MeshEvent κ → Option (κ × Option (State × Surroundings))
  | .op k op => some (k,(s.cluster k).state.schedulerCall (mc.cfg k) op)
  | .enter k entry env =>
    some (k,(s.cluster k).entryCall (mc.cfg k) (mc.gate k) (mc.inbound k) env entry)
  | .deliver i env =>
    match s.exchanges[i]? with
    | none => none
    | some ex =>
      match ex.answer, mc.address ex.out.decision.targetPublicUrl with
      | none, some k =>
        some (k,(s.cluster k).entryCall (mc.cfg k) (mc.gate k) (mc.inbound k) env
          (routedEntry ex.out))
      | _, _ => none
  | _ => none

/-- No cluster sends a job to its nodes that it has been told is forwarded. -/
def SendsNoForwarded (s t : MeshSystem κ) : Prop :=
  ∀ k j, (k,j) ∈ s.forwarded → ∀ new,
    (t.cluster k).state.actions = (s.cluster k).state.actions ++ new → ∀ n, .dispatched n j ∉ new

/-- The condition of a step: the scheduler, if it is called, does not pop a forwarded job that
it would dispatch. -/
def KeepsOff (s : MeshSystem κ) (e : MeshEvent κ) : Prop :=
  ∀ k cl, s.call mc e = some (k,cl) → ∀ j, (k,j) ∈ s.forwarded → ¬ State.Sends (mc.cfg k) j cl

/-- From the answer on, a forwarded job is never sent to a node by its source. -/
def RunsElsewhere (init : MeshSystem κ) (events : List (MeshEvent κ)) : Prop :=
  ∀ p e q, events = p ++ e :: q →
    SendsNoForwarded (run (step mc) init p) (step mc (run (step mc) init p) e)

/-- Every cluster knows the jobs that it has saved. -/
def Known (s : MeshSystem κ) : Prop := ∀ k, (s.cluster k).state.jobSide.Known

/-- What a call of some cluster's scheduler does at cluster `k`. -/
def callActionsAt (k : κ) : Option (κ × Option (State × Surroundings)) → List Action
  | none => []
  | some (k',cl) => if k' = k then State.callActions (mc.cfg k) cl else []

/-! ### One step -/

/-- From `s` to `t`, every cluster is quiet but for the given call of a scheduler. -/
structure Moves (s t : MeshSystem κ) (called : Option (κ × Option (State × Surroundings))) :
    Prop where
  known : s.Known → t.Known
  actions : s.Known → ∀ k, ∃ pre, Quiet pre ∧
    (t.cluster k).state.actions =
      (s.cluster k).state.actions ++ (pre ++ callActionsAt mc k called)

variable {mc} {s t : MeshSystem κ}

/-- A step that leaves the control planes alone. -/
theorem Moves.idle (h : ∀ k, (t.cluster k).state = (s.cluster k).state) :
    Moves mc s t none where
  known hk k := by rw [h k]; exact hk k
  actions _ k := ⟨[],fun _ _ => by simp,by rw [h k]; simp [callActionsAt]⟩

theorem put_cluster (k j : κ) (c : MeshCluster) :
    (s.put k c).cluster j = if j = k then c else s.cluster j := Function.update_apply _ _ _ _

/-- A step of one cluster, whose control plane stays as it is. -/
theorem Moves.idle_put {k : κ} {c : MeshCluster} (hc : c.state = (s.cluster k).state)
    (ht : t.cluster = (s.put k c).cluster) : Moves mc s t none := by
  refine Moves.idle fun j => ?_
  rw [ht, put_cluster]
  split_ifs with hj
  · rw [hj, hc]
  · rfl

/-- A step of one cluster, whose control plane calls the scheduler. -/
theorem Moves.of_put {k : κ} {c : MeshCluster} {cl : Option (State × Surroundings)}
    (hc : (s.cluster k).state.jobSide.Known → c.state.jobSide.Known ∧ ∃ pre, Quiet pre ∧
      c.state.actions = (s.cluster k).state.actions ++ (pre ++ State.callActions (mc.cfg k) cl))
    (ht : t.cluster = (s.put k c).cluster) : Moves mc s t (some (k,cl)) where
  known hk j := by
    rw [ht, put_cluster]
    split_ifs with hj
    · exact (hc (hk k)).1
    · exact hk j
  actions hk j := by
    rw [ht, put_cluster, callActionsAt]
    by_cases hj : j = k
    · subst hj
      rw [if_pos rfl, if_pos rfl]
      exact (hc (hk j)).2
    · rw [if_neg hj, if_neg (Ne.symm hj)]
      exact ⟨[],fun _ _ => by simp,by simp⟩

theorem moves_enter (k : κ) (entry : Entry) (env : Surroundings)
    (ht : t.cluster = (s.put k
      ((s.cluster k).enter (mc.cfg k) (mc.gate k) (mc.inbound k) env entry).1).cluster) :
    Moves mc s t
      (some (k,(s.cluster k).entryCall (mc.cfg k) (mc.gate k) (mc.inbound k) env entry)) :=
  Moves.of_put (fun hk => (s.cluster k).enter_actions _ _ _ env entry hk) ht

/-- The one thing in a step that sends jobs to nodes is its call of a scheduler. -/
theorem moves_step (e : MeshEvent κ) : Moves mc s (s.step mc e) (s.call mc e) := by
  cases e with
  | op k op =>
    exact Moves.of_put (fun hk => ⟨State.known_exec _ _ op hk,State.exec_actions _ _ op hk⟩) rfl
  | enter k entry env => exact moves_enter k entry env rfl
  | gossip k states => exact Moves.idle_put (k := k) (MeshCluster.count_state _ _) rfl
  | forward k body sig ts =>
    have hstate := (s.cluster k).forwardJob_state (mc.gate k) body sig ts
    unfold step
    dsimp only
    rcases hf : (s.cluster k).forwardJob (mc.gate k) body sig ts with ⟨c,_ | out⟩
    · rw [hf] at hstate
      exact Moves.idle_put hstate rfl
    · rw [hf] at hstate
      exact Moves.idle_put hstate rfl
  | deliver i env =>
    unfold step call
    dsimp only
    cases hex : s.exchanges[i]? with
    | none => exact Moves.idle fun _ => rfl
    | some ex =>
      dsimp only
      cases ex.answer with
      | some code => exact Moves.idle fun _ => rfl
      | none =>
        cases mc.address ex.out.decision.targetPublicUrl with
        | none => exact Moves.idle fun _ => rfl
        | some k => exact moves_enter k _ env rfl
  | answered i =>
    unfold step
    dsimp only
    cases hex : s.exchanges[i]? with
    | none => exact Moves.idle fun _ => rfl
    | some ex =>
      dsimp only
      cases ex.answer with
      | none => exact Moves.idle fun _ => rfl
      | some code =>
        have hstate := (s.cluster ex.source).forwardEnds_state ex.out (.inl code)
        dsimp only
        rcases hf : (s.cluster ex.source).forwardEnds ex.out (.inl code) with ⟨c,answer⟩
        rw [hf] at hstate
        cases answer <;> exact Moves.idle_put hstate rfl
  | broken i error =>
    unfold step
    dsimp only
    cases hex : s.exchanges[i]? with
    | none => exact Moves.idle fun _ => rfl
    | some ex =>
      exact Moves.idle_put ((s.cluster ex.source).forwardEnds_state ex.out (.inr error)) rfl

/-- A step sends no forwarded job to a node if and only if it keeps off the forwarded jobs. -/
theorem sendsNoForwarded_iff (hk : s.Known) (e : MeshEvent κ) :
    s.SendsNoForwarded (s.step mc e) ↔ s.KeepsOff mc e := by
  have hstep : Moves mc s (s.step mc e) (s.call mc e) := moves_step e
  have hmoves := hstep.actions hk
  constructor
  · intro h k cl hcall j hj hsends
    obtain ⟨pre,-,hact⟩ := hmoves k
    obtain ⟨n,hn⟩ := (State.sends_iff (mc.cfg k) j cl).mp hsends
    refine h k j hj _ hact n (List.mem_append_right pre ?_)
    rw [hcall, callActionsAt, if_pos rfl]
    exact hn
  · intro h k j hj new hnew n hn
    obtain ⟨pre,hquiet,hact⟩ := hmoves k
    rw [hact] at hnew
    rw [← List.append_cancel_left hnew] at hn
    obtain hn | hn := List.mem_append.mp hn
    · exact hquiet n j hn
    · unfold callActionsAt at hn
      cases hcall : s.call mc e with
      | none => rw [hcall] at hn; simp at hn
      | some kc =>
        obtain ⟨k',cl⟩ := kc
        rw [hcall] at hn
        dsimp only at hn
        split_ifs at hn with hkk
        · subst hkk
          exact h k' cl hcall j hj ((State.sends_iff (mc.cfg k') j cl).mpr ⟨n,hn⟩)
        · simp at hn

/-! ### Runs -/

/-- Clusters that start with empty databases. -/
def initial (runtime : κ → Option MeshRuntime) : MeshSystem κ := { cluster := fun k => ⟨{},runtime k⟩ }

theorem known_run (runtime : κ → Option MeshRuntime) (events : List (MeshEvent κ)) :
    (run (step mc) (initial runtime) events).Known :=
  run_always (fun _ e h => (moves_step e).known h) (fun _ => State.known_init) events

/-- Forwarded jobs run on one cluster only in exactly the runs in which no scheduler pops,
ready to dispatch it, a job that its own cluster has forwarded. -/
theorem runsElsewhere_iff (mc : MeshConfig κ) (runtime : κ → Option MeshRuntime)
    (events : List (MeshEvent κ)) :
    RunsElsewhere mc (initial runtime) events ↔
      Along (step mc) (KeepsOff mc) (initial runtime) events := by
  rw [along_iff]
  constructor
  · intro h p e q he
    exact (sendsNoForwarded_iff (known_run runtime p) e).mp (h p e q he)
  · intro h p e q he
    exact (sendsNoForwarded_iff (known_run runtime p) e).mpr (h p e q he)

end MeshSystem

/-! ### A forwarded job that stays in the queue -/

inductive Site | source | peer
  deriving DecidableEq

def twoSites : MeshConfig Site where
  cfg _ := {}
  gate _ := { mac := countingMac }
  inbound _ := "true"
  address url := if url = "http://peer" then some .peer else none

/-- The source has heard of its peer. -/
def twoRuntimes : Site → Option MeshRuntime
  | .source => some {
      clusterId := "source", region := "eu"
      registry := Table.empty.put
        { clusterId := "peer", publicUrl := "http://peer", region := "eu" } }
  | .peer => some { clusterId := "peer", region := "eu" }

/-- The source has no node yet; its job is forwarded, then a node joins it. -/
def forwardThenJoin : List (MeshEvent Site) :=
  [.op .source (.submitJob (soloJob "j") allAccept),
   .forward .source [("job_id",.str "j")] none none,.deliver 0 allAccept,.answered 0,
   .op .source (.registerNode (cpuNode "a")),.op .source (.scheduleOnce allAccept)]

/-- The action sends the job to a node. -/
def Action.sendsJob (job : JobId) : Action → Bool
  | .dispatched _ j => j = job
  | _ => false

/-- The source dispatches the job that its peer has accepted. -/
theorem not_runsElsewhere :
    ¬ ∀ (mc : MeshConfig Site) (runtime : Site → Option MeshRuntime)
      (events : List (MeshEvent Site)),
      MeshSystem.RunsElsewhere mc (MeshSystem.initial runtime) events := by
  intro h
  let s := run (MeshSystem.step twoSites) (MeshSystem.initial twoRuntimes)
    (forwardThenJoin.take 5)
  let e : MeshEvent Site := .op .source (.scheduleOnce allAccept)
  have hforwarded : (Site.source,"j") ∈ s.forwarded := by decide +kernel
  have hbefore : (s.cluster .source).state.actions.any (Action.sendsJob "j") = false := by
    decide +kernel
  have hafter : ((s.step twoSites e).cluster .source).state.actions.any (Action.sendsJob "j") =
      true := by decide +kernel
  have hmoves : MeshSystem.Moves twoSites s (s.step twoSites e) (s.call twoSites e) :=
    MeshSystem.moves_step e
  obtain ⟨pre,-,hact⟩ := hmoves.actions (MeshSystem.known_run twoRuntimes _) .source
  have hnone := h twoSites twoRuntimes forwardThenJoin (forwardThenJoin.take 5) e [] rfl
    .source "j" hforwarded _ hact
  rw [hact, List.any_append, hbefore, Bool.false_or, List.any_eq_true] at hafter
  obtain ⟨a,ha,hsends⟩ := hafter
  cases a with
  | dispatched n j =>
    obtain rfl : j = "j" := by simpa [Action.sendsJob] using hsends
    exact hnone n ha
  | _ => simp [Action.sendsJob] at hsends

end Arsonist.ControlPlane
