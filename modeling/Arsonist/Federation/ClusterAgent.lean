import Arsonist.Federation.Addresses
import Arsonist.Federation.Handover
import Arsonist.Shared.Models

/-! The agents of `cluster_client/cluster_agent.py` against the controller. An agent posts its
registration until one is answered, and from then on heartbeats whose answers it ignores. A request
may be lost or refused, and be handled after the agent has given it up; the same holds for the
answer. The controller does all else that it does at the same time. -/
namespace Arsonist.Federation
open Arsonist.Library Arsonist.Mesh Arsonist.Shared

/-- The figures of a cluster that its messages carry. -/
structure ClusterReport where
  nodeCount : ℤ
  gpuCapacity : ℤ
  currentLoad : ℚ
  queueDepth : ℤ
  avgLatencyMs : ℚ

def ClusterRegistration.report (c : ClusterRegistration) : ClusterReport :=
  ⟨c.nodeCount,c.gpuCapacity,c.currentLoad,c.queueDepth,c.avgLatencyMs⟩

def FederationHeartbeatPayload.report (p : FederationHeartbeatPayload) : ClusterReport :=
  ⟨p.nodeCount,p.gpuCapacity,p.currentLoad,p.queueDepth,p.avgLatencyMs⟩

/-- What an agent is started with. -/
structure ClusterAgent where
  clusterId : ClusterId
  region : String
  controlPlaneUrl : String
  apiToken : String

/-- A mean, with a value for no nodes. -/
def meanOr (default : ℚ) (l : List ℚ) : ℚ := if l = [] then default else l.sum/l.length

def agentHealth (nodes : List NodeState) : ClusterHealth :=
  if nodes = [] then .degraded else .healthy

namespace ClusterAgent
variable (a : ClusterAgent)

/-- `control_plane_public_url.rstrip("/")`. -/
def publicUrl : String := Text.rstrip '/' a.controlPlaneUrl

/-- The body that `_register_once` posts. -/
def registration (nodes : List NodeState) (queued : ℕ) : ClusterRegistration where
  clusterId := a.clusterId
  region := a.region
  controlPlaneUrl := a.publicUrl
  apiToken := a.apiToken
  nodeCount := nodes.length
  gpuCapacity := nodes.countP fun n => n.hasGpu
  currentLoad := meanOr 0 (nodes.map NodeState.currentLoad)
  queueDepth := queued
  avgLatencyMs := meanOr 10 (nodes.map NodeState.avgLatencyMs)
  healthState := agentHealth nodes

/-- The body that `_heartbeat_once` posts. -/
def heartbeat (nodes : List NodeState) (queued : ℕ) : FederationHeartbeatPayload where
  clusterId := a.clusterId
  nodeCount := nodes.length
  gpuCapacity := nodes.countP fun n => n.hasGpu
  currentLoad := meanOr 0 (nodes.map NodeState.currentLoad)
  queueDepth := queued
  avgLatencyMs := meanOr 0 (nodes.map NodeState.avgLatencyMs)
  healthState := agentHealth nodes

end ClusterAgent

inductive AgentRequest
  | register (body : ClusterRegistration)
  | heartbeat (payload : FederationHeartbeatPayload)

namespace AgentRequest

def clusterId : AgentRequest → ClusterId
  | register body => body.clusterId
  | heartbeat payload => payload.clusterId

def report : AgentRequest → ClusterReport
  | register body => body.report
  | heartbeat payload => payload.report

end AgentRequest

/-- A post of an agent. The serial tells its answer from those to earlier posts. -/
structure AgentMessage where
  sender : ℕ
  serial : ℕ
  request : AgentRequest

structure AgentReply where
  sender : ℕ
  serial : ℕ
  ok : Bool

/-- Where `_run` stands. A heartbeat is not waited for: nothing depends on its answer. -/
inductive AgentPhase
  | registering
  | waiting (serial : ℕ)
  | beating
  deriving DecidableEq

/-- The controller with the agents and what is on the way between them, and the messages that were
ever posted as history. -/
structure AgentNetwork where
  controller : Controller := ⟨{},[]⟩
  phase : ℕ → AgentPhase := fun _ => .registering
  messages : List AgentMessage := []
  replies : List AgentReply := []
  history : List AgentMessage := []

/-- What the controller does beside the registrations and the heartbeats. -/
inductive ControllerWork
  | clock (now : ℚ)
  | submit (body : SubmitGlobalJobBody) (fresh : GlobalJobId)
  | complete (payload : GlobalJobCompletePayload)
  | watch (timeout : ℚ)
  | advance (i : ℕ) (pushError : Option String)

def ControllerWork.event : ControllerWork → ControllerEvent
  | clock now => .outside (.clock now)
  | submit body fresh => .start (.submit body fresh)
  | complete payload => .start (.complete payload)
  | watch timeout => .start (.watch timeout)
  | advance i pushError => .advance i pushError

inductive AgentEvent
  | register (i : ℕ) (nodes : List NodeState) (queued : ℕ)
  | heartbeat (i : ℕ) (nodes : List NodeState) (queued : ℕ)
  | deliver (k : ℕ)
  | refuse (k : ℕ)
  | lose (k : ℕ)
  | answer (k : ℕ)
  | loseAnswer (k : ℕ)
  | giveUp (i : ℕ)
  | restart (i : ℕ)
  | work (w : ControllerWork)

namespace AgentNetwork
variable (agents : ℕ → ClusterAgent)

/-- A request goes on its way. -/
def post (i : ℕ) (request : AgentRequest) (s : AgentNetwork) : AgentNetwork :=
  { s with
    messages := s.messages ++ [⟨i,s.history.length,request⟩]
    history := s.history ++ [⟨i,s.history.length,request⟩] }

def setPhase (i : ℕ) (phase : AgentPhase) (s : AgentNetwork) : AgentNetwork :=
  { s with phase := Function.update s.phase i phase }

def reply (m : AgentMessage) (ok : Bool) (s : AgentNetwork) : AgentNetwork :=
  { s with replies := s.replies ++ [⟨m.sender,m.serial,ok⟩] }

def advance (e : ControllerEvent) (s : AgentNetwork) : AgentNetwork :=
  { s with controller := s.controller.step Federation.controller e }

/-- The controller takes up a request. A registration is handled at once; a heartbeat becomes one
more process. -/
def handle (m : AgentMessage) (s : AgentNetwork) : AgentNetwork :=
  match m.request with
  | .register body =>
    (s.advance (.outside (.register body))).reply m
      (urlHolder s.controller.shared.registry body).isNone
  | .heartbeat payload => s.advance (.start (.heartbeat payload))

/-- An answer comes in. It counts for the post that the agent waits for. -/
def hear (r : AgentReply) (s : AgentNetwork) : AgentNetwork :=
  if s.phase r.sender = .waiting r.serial then
    s.setPhase r.sender (if r.ok then .beating else .registering)
  else s

def step (s : AgentNetwork) : AgentEvent → AgentNetwork
  | .register i nodes queued =>
    if s.phase i = .registering then
      (s.setPhase i (.waiting s.history.length)).post i
        (.register ((agents i).registration nodes queued))
    else s
  | .heartbeat i nodes queued =>
    if s.phase i = .beating then s.post i (.heartbeat ((agents i).heartbeat nodes queued)) else s
  | .deliver k =>
    match s.messages[k]? with
    | some m => handle m { s with messages := s.messages.eraseIdx k }
    | none => s
  | .refuse k =>
    match s.messages[k]? with
    | some m => reply m false { s with messages := s.messages.eraseIdx k }
    | none => s
  | .lose k => { s with messages := s.messages.eraseIdx k }
  | .answer k =>
    match s.replies[k]? with
    | some r => hear r { s with replies := s.replies.eraseIdx k }
    | none => s
  | .loseAnswer k => { s with replies := s.replies.eraseIdx k }
  | .giveUp i => if s.phase i = .beating then s else s.setPhase i .registering
  | .restart i => s.setPhase i .registering
  | .work w => s.advance w.event

def reach (events : List AgentEvent) : AgentNetwork := run (step agents) {} events

end AgentNetwork
/-- The cluster has a record. -/
def ControllerState.Registered (s : ControllerState) (c : ClusterId) : Prop :=
  (s.registry.getCluster c).isSome

instance instDecidableRegistered (s : ControllerState) (c : ClusterId) :
    Decidable (s.Registered c) :=
  inferInstanceAs (Decidable ((s.registry.getCluster c).isSome = true))

section Sound
variable (agents : ℕ → ClusterAgent) (history : List AgentMessage)

/-- A message of the cluster carried these figures. -/
def Reported (c : ClusterId) (report : ClusterReport) : Prop :=
  ∃ m ∈ history, m.request.clusterId = c ∧ m.request.report = report

/-- A record has the region, the address and the token of an agent of its cluster, and the figures
of one message. -/
structure Vouched (r : ClusterRecord) : Prop where
  agent : ∃ i, (agents i).clusterId = r.clusterId ∧ (agents i).region = r.region ∧
    (agents i).publicUrl = r.controlPlaneUrl ∧ (agents i).apiToken = r.apiToken
  reported : Reported history r.clusterId r.report

/-- All stored records are vouched for. -/
def RegistrySound (s : ControllerState) : Prop :=
  ∀ c r, s.registry.getCluster c = some r → Vouched agents history r

/-- What a process has read is vouched for, and belongs to a cluster that has a record. -/
def ProcessSound (s : ControllerState) : Process → Prop
  | .beating payload => Reported history payload.clusterId payload.report ∧
      s.Registered payload.clusterId
  | .stamping payload existing => Reported history existing.clusterId payload.report ∧
      Vouched agents history existing ∧ s.Registered existing.clusterId
  | .storing written => Vouched agents history written ∧ s.Registered written.clusterId
  | .sweeping _ todo _ => ∀ c ∈ todo, Vouched agents history c ∧ s.Registered c.clusterId
  | _ => True

variable {agents history} {s t : ControllerState} {p : Process}

theorem Reported.mono {later : List AgentMessage} {c : ClusterId} {report : ClusterReport}
    (h : Reported history c report) (hsub : history ⊆ later) : Reported later c report := by
  obtain ⟨m,hm,hreport⟩ := h
  exact ⟨m,hsub hm,hreport⟩

theorem Vouched.mono {later : List AgentMessage} {r : ClusterRecord}
    (h : Vouched agents history r) (hsub : history ⊆ later) : Vouched agents later r :=
  ⟨h.agent,h.reported.mono hsub⟩

theorem ProcessSound.mono {later : List AgentMessage} (h : ProcessSound agents history s p)
    (hsub : history ⊆ later) (hst : ∀ c, s.Registered c → t.Registered c) :
    ProcessSound agents later t p := by
  cases p with
  | beating payload => exact ⟨h.1.mono hsub,hst _ h.2⟩
  | stamping payload existing => exact ⟨h.1.mono hsub,h.2.1.mono hsub,hst _ h.2.2⟩
  | storing written => exact ⟨h.1.mono hsub,hst _ h.2⟩
  | sweeping timeout todo dead => exact fun c hc => ⟨(h c hc).1.mono hsub,hst _ (h c hc).2⟩
  | _ => trivial

/-- The record that a process writes next is vouched for, and has one before. -/
theorem ProcessSound.written (h : ProcessSound agents history s p) {w : ClusterRecord}
    (hw : writtenCluster p = some w) : Vouched agents history w ∧ s.Registered w.clusterId := by
  cases p with
  | storing written =>
    obtain rfl := Option.some.inj hw
    exact h
  | sweeping timeout todo dead =>
    cases todo with
    | nil => cases hw
    | cons c todo =>
      obtain rfl := Option.some.inj hw
      obtain ⟨hvouched,hregistered⟩ := h c List.mem_cons_self
      exact ⟨⟨hvouched.agent,hvouched.reported⟩,hregistered⟩
  | _ => cases hw

theorem registrySound_next (hs : RegistrySound agents history s)
    (hp : ProcessSound agents history s p) (pushError : Option String) :
    RegistrySound agents history (next s p pushError).1 := by
  intro c r hget
  rw [getCluster_next] at hget
  cases hw : writtenCluster p with
  | none =>
    rw [hw] at hget
    exact hs c r hget
  | some w =>
    rw [hw] at hget
    dsimp only at hget
    split_ifs at hget with hc
    · exact Option.some.inj hget ▸ (hp.written hw).1
    · exact hs c r hget

/-- What a process reads is stored, so it is vouched for. -/
theorem processSound_next (hs : RegistrySound agents history s)
    (hp : ProcessSound agents history s p) (pushError : Option String) :
    ProcessSound agents history (next s p pushError).1 (next s p pushError).2 := by
  cases p with
  | deciding gj =>
    rw [next]
    split <;> trivial
  | fetching routed target =>
    rw [next]
    split <;> trivial
  | pushing routed cluster => cases pushError <;> trivial
  | completing payload =>
    rw [next]
    split <;> trivial
  | beating payload =>
    rw [next]
    split
    · trivial
    · rename_i existing hget
      have hid := FederationRegistry.clusterId_of_getCluster hget
      have hregistered : s.Registered existing.clusterId := by rw [hid]; exact hp.2
      exact ⟨by rw [hid]; exact hp.1,hs _ _ hget,hregistered⟩
  | stamping payload existing => exact ⟨⟨hp.2.1.agent,hp.1⟩,hp.2.2⟩
  | listing timeout now =>
    intro c hc
    have hget := FederationRegistry.mem_listClusters.mp (List.mem_filter.mp hc).1
    exact ⟨hs _ _ hget,Option.isSome_of_eq_some hget⟩
  | sweeping timeout todo dead =>
    cases todo with
    | nil => trivial
    | cons c todo =>
      intro d hd
      obtain ⟨hvouched,hregistered⟩ := hp d (List.mem_cons_of_mem c hd)
      exact ⟨hvouched,Controller.getCluster_next_isSome (.sweeping timeout (c :: todo) dead) pushError
        hregistered⟩
  | failover dead => cases dead <;> trivial
  | rerouting dead others todo pushes rest => cases todo <;> trivial
  | handing pushes rest => cases pushes <;> trivial
  | _ => trivial

end Sound
namespace AgentNetwork
variable (agents : ℕ → ClusterAgent)

abbrev Registered (s : AgentNetwork) (c : ClusterId) : Prop := s.controller.shared.Registered c

/-- A message is as its sender posts it; a heartbeat is posted by a cluster that has a record. -/
def WellPosted (s : AgentNetwork) (m : AgentMessage) : Prop :=
  match m.request with
  | .register body => ∃ nodes queued, body = (agents m.sender).registration nodes queued
  | .heartbeat payload => s.Registered payload.clusterId

/-- What holds of the agents, the controller and all that is between them. -/
structure Sound (s : AgentNetwork) : Prop where
  posted : ∀ m ∈ s.messages, m ∈ s.history ∧ WellPosted agents s m
  controller : s.controller.Holds (RegistrySound agents s.history) (ProcessSound agents s.history)
  accepted : ∀ r ∈ s.replies, r.ok = true → s.Registered (agents r.sender).clusterId
  beating : ∀ i, s.phase i = .beating → s.Registered (agents i).clusterId

variable {agents} {s t : AgentNetwork}

theorem WellPosted.mono {m : AgentMessage} (h : WellPosted agents s m)
    (hst : ∀ c, s.Registered c → t.Registered c) : WellPosted agents t m := by
  unfold WellPosted at h ⊢
  split at h
  · exact h
  · exact hst _ h

/-- A step after which the controller is the same and which adds no message and no reply. -/
theorem Sound.quiet (h : s.Sound agents) (hcontroller : t.controller = s.controller)
    (hhistory : t.history = s.history) (hmessages : t.messages ⊆ s.messages)
    (hreplies : t.replies ⊆ s.replies)
    (hphase : ∀ i, t.phase i = .beating → s.Registered (agents i).clusterId) :
    t.Sound agents := by
  have hst : ∀ c, s.Registered c → t.Registered c := by
    intro c hc
    rwa [Registered, hcontroller]
  refine ⟨fun m hm => ?_,?_,fun r hr hok => ?_,fun i hi => hst _ (hphase i hi)⟩
  · obtain ⟨hmem,hposted⟩ := h.posted m (hmessages hm)
    exact ⟨by rwa [hhistory],hposted.mono hst⟩
  · rw [hcontroller, hhistory]
    exact h.controller
  · exact hst _ (h.accepted r (hreplies hr) hok)

theorem Sound.setPhase {i : ℕ} {phase : AgentPhase} (h : s.Sound agents)
    (hphase : phase = .beating → s.Registered (agents i).clusterId) :
    (s.setPhase i phase).Sound agents := by
  refine h.quiet rfl rfl (List.Subset.refl _) (List.Subset.refl _) fun j hj => ?_
  change Function.update s.phase i phase j = .beating at hj
  rw [Function.update_apply] at hj
  split_ifs at hj with hij
  · rw [hij]
    exact hphase hj
  · exact h.beating j hj

theorem Sound.post {i : ℕ} {request : AgentRequest} (h : s.Sound agents)
    (hposted : WellPosted agents s ⟨i,s.history.length,request⟩) :
    (s.post i request).Sound agents := by
  have hsub : s.history ⊆ (s.post i request).history := List.subset_append_left _ _
  refine ⟨fun m hm => ?_,⟨fun c r hget => ?_,fun p hp => ?_⟩,h.accepted,h.beating⟩
  · obtain hm | hm := List.mem_append.mp hm
    · exact ⟨hsub (h.posted m hm).1,(h.posted m hm).2⟩
    · rw [List.mem_singleton.mp hm]
      exact ⟨List.mem_append_right _ List.mem_cons_self,hposted⟩
  · exact (h.controller.1 c r hget).mono hsub
  · exact (h.controller.2 p hp).mono hsub fun _ hc => hc

theorem Sound.advance {e : ControllerEvent} (h : s.Sound agents)
    (hst : ∀ c, s.Registered c → (s.advance e).Registered c)
    (hcontroller : (s.advance e).controller.Holds (RegistrySound agents s.history)
      (ProcessSound agents s.history)) : (s.advance e).Sound agents :=
  ⟨fun m hm => ⟨(h.posted m hm).1,(h.posted m hm).2.mono hst⟩,hcontroller,
    fun r hr hok => hst _ (h.accepted r hr hok),fun i hi => hst _ (h.beating i hi)⟩

theorem registered_outside {e : Outside} (c : ClusterId) (h : s.Registered c) :
    (s.advance (.outside e)).Registered c :=
  Controller.getCluster_outside_isSome e h

theorem registered_work {w : ControllerWork} (c : ClusterId) (h : s.Registered c) :
    (s.advance w.event).Registered c := by
  cases w with
  | clock now => exact h
  | submit body fresh => exact h
  | complete payload => exact h
  | watch timeout => exact h
  | advance i pushError =>
    change (((s.controller.step Federation.controller (.advance i pushError)).shared
      ).registry.getCluster c).isSome
    cases hp : s.controller.procs[i]? with
    | none =>
      rw [Pool.step_advance_none hp]
      exact h
    | some p =>
      rw [Pool.step_advance hp]
      exact Controller.getCluster_next_isSome p pushError h

theorem Sound.work {w : ControllerWork} (h : s.Sound agents) :
    (s.advance w.event).Sound agents := by
  refine h.advance registered_work ?_
  cases w with
  | clock now =>
    refine h.controller.outside h.controller.1 fun p hp => ?_
    exact hp.mono (List.Subset.refl _) fun _ hc => hc
  | submit body fresh => exact h.controller.start trivial
  | complete payload => exact h.controller.start trivial
  | watch timeout => exact h.controller.start trivial
  | advance i pushError =>
    exact h.controller.advance fun p _ hp => ⟨registrySound_next h.controller.1 hp pushError,
      processSound_next h.controller.1 hp pushError,fun q hq =>
        hq.mono (List.Subset.refl _) fun c => Controller.getCluster_next_isSome p pushError⟩

/-- A registration that is not refused leaves a record. -/
theorem registered_register {body : ClusterRegistration}
    (h : urlHolder s.controller.shared.registry body = none) :
    (s.advance (.outside (.register body))).Registered body.clusterId := by
  change ((outside s.controller.shared (.register body)).registry.getCluster _).isSome
  rw [outside, h]
  change ((s.controller.shared.registry.upsertCluster _).getCluster body.clusterId).isSome
  rw [FederationRegistry.getCluster_upsertCluster]
  split_ifs with hid
  · rfl
  · exact absurd rfl hid

theorem Sound.register {body : ClusterRegistration} (h : s.Sound agents) {i : ℕ}
    {nodes : List NodeState} {queued : ℕ} (hbody : body = (agents i).registration nodes queued)
    (hreported : Reported s.history body.clusterId body.report) :
    (s.advance (.outside (.register body))).Sound agents := by
  refine h.advance registered_outside (h.controller.outside ?_ fun p hp => ?_)
  · change RegistrySound agents s.history (outside s.controller.shared (.register body))
    rw [outside]
    split
    · exact h.controller.1
    · intro c r hget
      change (s.controller.shared.registry.upsertCluster _).getCluster c = some r at hget
      rw [FederationRegistry.getCluster_upsertCluster] at hget
      split_ifs at hget with hc
      · obtain rfl := Option.some.inj hget
        refine ⟨⟨i,?_⟩,hreported⟩
        subst hbody
        exact ⟨rfl,rfl,rfl,rfl⟩
      · exact h.controller.1 c r hget
  · exact hp.mono (List.Subset.refl _) registered_outside

theorem Sound.handle {m : AgentMessage} (h : s.Sound agents) (hm : m ∈ s.history)
    (hposted : WellPosted agents s m) : (handle m s).Sound agents := by
  obtain ⟨sender,serial,request⟩ := m
  cases request with
  | heartbeat payload =>
    have hreported : Reported s.history payload.clusterId payload.report := ⟨_,hm,rfl,rfl⟩
    exact h.advance (fun c hc => hc) (h.controller.start ⟨hreported,hposted⟩)
  | register body =>
    obtain ⟨nodes,queued,hbody⟩ := hposted
    have hreported : Reported s.history body.clusterId body.report := ⟨_,hm,rfl,rfl⟩
    have hsound := h.register hbody hreported
    refine ⟨hsound.posted,hsound.controller,fun r hr hok => ?_,hsound.beating⟩
    obtain hr | hr := List.mem_append.mp hr
    · exact hsound.accepted r hr hok
    · rw [List.mem_singleton.mp hr] at hok ⊢
      have hid : (agents sender).clusterId = body.clusterId := by rw [hbody]; rfl
      rw [hid]
      exact registered_register (Option.isNone_iff_eq_none.mp hok)

theorem Sound.hear {r : AgentReply} (h : s.Sound agents)
    (hr : r.ok = true → s.Registered (agents r.sender).clusterId) : (hear r s).Sound agents := by
  rw [AgentNetwork.hear]
  split_ifs with hwaits hok
  · exact h.setPhase fun _ => hr hok
  · exact h.setPhase fun hphase => by cases hphase
  · exact h

theorem Sound.step {e : AgentEvent} (h : s.Sound agents) : (step agents s e).Sound agents := by
  cases e with
  | register i nodes queued =>
    rw [AgentNetwork.step]
    split_ifs
    · have hwaiting : (s.setPhase i (.waiting s.history.length)).Sound agents :=
        h.setPhase fun hphase => by cases hphase
      exact hwaiting.post ⟨nodes,queued,rfl⟩
    · exact h
  | heartbeat i nodes queued =>
    rw [AgentNetwork.step]
    split_ifs with hbeating
    · exact h.post (h.beating i hbeating)
    · exact h
  | deliver k =>
    rw [AgentNetwork.step]
    cases hm : s.messages[k]? with
    | none => exact h
    | some m =>
      obtain ⟨hmem,hposted⟩ := h.posted m (List.mem_of_getElem? hm)
      have hrest : AgentNetwork.Sound agents { s with messages := s.messages.eraseIdx k } :=
        h.quiet rfl rfl List.eraseIdx_subset (List.Subset.refl _) h.beating
      exact hrest.handle hmem hposted
  | refuse k =>
    rw [AgentNetwork.step]
    cases hm : s.messages[k]? with
    | none => exact h
    | some m =>
      have hrest : AgentNetwork.Sound agents { s with messages := s.messages.eraseIdx k } :=
        h.quiet rfl rfl List.eraseIdx_subset (List.Subset.refl _) h.beating
      refine ⟨hrest.posted,hrest.controller,fun r hr hok => ?_,hrest.beating⟩
      obtain hr | hr := List.mem_append.mp hr
      · exact hrest.accepted r hr hok
      · rw [List.mem_singleton.mp hr] at hok
        cases hok
  | lose k => exact h.quiet rfl rfl List.eraseIdx_subset (List.Subset.refl _) h.beating
  | answer k =>
    rw [AgentNetwork.step]
    cases hr : s.replies[k]? with
    | none => exact h
    | some r =>
      have hrest : AgentNetwork.Sound agents { s with replies := s.replies.eraseIdx k } :=
        h.quiet rfl rfl (List.Subset.refl _) List.eraseIdx_subset h.beating
      exact hrest.hear (h.accepted r (List.mem_of_getElem? hr))
  | loseAnswer k => exact h.quiet rfl rfl (List.Subset.refl _) List.eraseIdx_subset h.beating
  | giveUp i =>
    rw [AgentNetwork.step]
    split_ifs
    · exact h
    · exact h.setPhase fun hphase => by cases hphase
  | restart i => exact h.setPhase fun hphase => by cases hphase
  | work w => exact h.work

theorem sound_reach (events : List AgentEvent) : (reach agents events).Sound agents := by
  have hstart : AgentNetwork.Sound agents {} := by
    refine ⟨by simp,⟨fun c r hget => ?_,by simp⟩,by simp,fun i hi => ?_⟩
    · cases hget
    · cases hi
  exact run_always (fun _ _ h => h.step) hstart events

/-- What a step can do to the controller. -/
theorem controller_step (s : AgentNetwork) (e : AgentEvent) :
    (step agents s e).controller = s.controller ∨
    (∃ body, (step agents s e).controller = (s.advance (.outside (.register body))).controller) ∨
    (∃ payload, (step agents s e).controller =
      (s.advance (.start (.heartbeat payload))).controller) ∨
    ∃ w : ControllerWork, (step agents s e).controller = (s.advance w.event).controller := by
  cases e with
  | register i nodes queued =>
    left
    rw [step]
    split_ifs <;> rfl
  | heartbeat i nodes queued =>
    left
    rw [step]
    split_ifs <;> rfl
  | deliver k =>
    rw [step]
    cases hm : s.messages[k]? with
    | none => exact Or.inl rfl
    | some m =>
      right
      obtain ⟨sender,serial,request⟩ := m
      cases request with
      | register body => exact Or.inl ⟨body,rfl⟩
      | heartbeat payload => exact Or.inr (Or.inl ⟨payload,rfl⟩)
  | refuse k =>
    left
    rw [step]
    cases s.messages[k]? <;> rfl
  | lose k => exact Or.inl rfl
  | answer k =>
    left
    rw [step]
    cases s.replies[k]? with
    | none => rfl
    | some r =>
      dsimp only [hear]
      split_ifs <;> rfl
  | loseAnswer k => exact Or.inl rfl
  | giveUp i =>
    left
    rw [step]
    split_ifs <;> rfl
  | restart i => exact Or.inl rfl
  | work w => exact Or.inr (Or.inr (Or.inr ⟨w,rfl⟩))

/-- A cluster that has a record keeps one. -/
theorem registered_step {c : ClusterId} (h : s.Registered c) (e : AgentEvent) :
    (step agents s e).Registered c := by
  rw [Registered]
  obtain heq | ⟨body,heq⟩ | ⟨payload,heq⟩ | ⟨w,heq⟩ := @controller_step agents s e
  · rwa [heq]
  · rw [heq]
    exact registered_outside c h
  · rw [heq]
    exact h
  · rw [heq]
    exact registered_work c h

/-- Each cluster has one address. -/
def OneAddress (agents : ℕ → ClusterAgent) : Prop :=
  ∀ i j, (agents i).clusterId = (agents j).clusterId →
    normalizeCpUrl (agents i).publicUrl = normalizeCpUrl (agents j).publicUrl

theorem same_address {history : List AgentMessage} {r w : ClusterRecord}
    (hone : OneAddress agents) (hr : Vouched agents history r) (hw : Vouched agents history w)
    (hid : r.clusterId = w.clusterId) :
    normalizeCpUrl r.controlPlaneUrl = normalizeCpUrl w.controlPlaneUrl := by
  obtain ⟨i,hi,-,hurli,-⟩ := hr.agent
  obtain ⟨j,hj,-,hurlj,-⟩ := hw.agent
  rw [← hurli, ← hurlj]
  exact hone i j (by rw [hi, hj, hid])

/-- The addresses stay unique, since no process writes back one that its cluster has left. -/
theorem addressesUnique_step (hone : OneAddress agents) (h : s.Sound agents)
    (hunique : s.controller.shared.registry.AddressesUnique) (e : AgentEvent) :
    (step agents s e).controller.shared.registry.AddressesUnique := by
  obtain heq | ⟨body,heq⟩ | ⟨payload,heq⟩ | ⟨w,heq⟩ := @controller_step agents s e
  · rwa [heq]
  · rw [heq]
    exact Controller.addressesUnique_outside (.register body) hunique
  · rw [heq]
    exact hunique
  · rw [heq]
    cases w with
    | advance i pushError =>
      change (s.controller.step Federation.controller
        (.advance i pushError)).shared.registry.AddressesUnique
      cases hp : s.controller.procs[i]? with
      | none =>
        rw [Pool.step_advance_none hp]
        exact hunique
      | some p =>
        rw [Pool.step_advance hp]
        refine (Controller.addressesUnique_next hunique).mpr fun w hw => Or.inl ?_
        have hsound := h.controller.2 p (Pool.mem_of_getElem? hp)
        obtain ⟨hvouched,hregistered⟩ := hsound.written hw
        obtain ⟨stored,hstored⟩ := Option.isSome_iff_exists.mp hregistered
        have hid := FederationRegistry.clusterId_of_getCluster hstored
        exact ⟨stored,hstored,same_address hone (h.controller.1 _ _ hstored) hvouched hid⟩
    | _ => exact hunique

theorem addressesUnique_reach (hone : OneAddress agents) (events : List AgentEvent) :
    (reach agents events).controller.shared.registry.AddressesUnique := by
  have hstart : AgentNetwork.Sound agents {} ∧
      ({} : AgentNetwork).controller.shared.registry.AddressesUnique := by
    refine ⟨sound_reach [],fun i j c d hc => ?_⟩
    cases hc
  have hstep : ∀ s e, (Sound agents s ∧ s.controller.shared.registry.AddressesUnique) →
      Sound agents (step agents s e) ∧
        (step agents s e).controller.shared.registry.AddressesUnique :=
    fun s e h => ⟨h.1.step,addressesUnique_step hone h.1 h.2 e⟩
  exact (run_always hstep hstart events).2

/-- The address of the record of a cluster is that of its agents. -/
theorem Sound.address (hone : OneAddress agents) (h : s.Sound agents) {i : ℕ}
    (hi : s.Registered (agents i).clusterId) :
    ∃ r, s.controller.shared.registry.getCluster (agents i).clusterId = some r ∧
      normalizeCpUrl r.controlPlaneUrl = normalizeCpUrl (agents i).publicUrl := by
  obtain ⟨r,hr⟩ := Option.isSome_iff_exists.mp hi
  obtain ⟨j,hj,-,hurl,-⟩ := (h.controller.1 _ _ hr).agent
  refine ⟨r,hr,?_⟩
  rw [← hurl]
  exact hone j i (hj.trans (FederationRegistry.clusterId_of_getCluster hr))

end AgentNetwork

open AgentNetwork

/-- In every state, an agent that posts heartbeats belongs to a cluster that has a record, each
heartbeat that is handled finds one, and each record carries what agents of its cluster posted. -/
theorem agents_registered (agents : ℕ → ClusterAgent) (events : List AgentEvent) :
    (∀ i, (reach agents events).phase i = .beating →
      (reach agents events).Registered (agents i).clusterId) ∧
    (∀ payload, Process.beating payload ∈ (reach agents events).controller.procs →
      (reach agents events).Registered payload.clusterId) ∧
    ∀ c r, (reach agents events).controller.shared.registry.getCluster c = some r →
      Vouched agents (reach agents events).history r := by
  have hsound := @sound_reach agents events
  exact ⟨hsound.beating,fun payload hp => (hsound.controller.2 _ hp).2,hsound.controller.1⟩

/-- Of the clusters that share an address, the first whose registration is handled keeps it: no
other one is ever registered, and none of their agents posts a heartbeat. -/
theorem address_keeps {agents : ℕ → ClusterAgent} (hone : OneAddress agents)
    (events later : List AgentEvent) {i j : ℕ}
    (hi : (reach agents events).Registered (agents i).clusterId)
    (haddress : normalizeCpUrl (agents i).publicUrl = normalizeCpUrl (agents j).publicUrl)
    (hij : (agents i).clusterId ≠ (agents j).clusterId) :
    ¬ (reach agents (events ++ later)).Registered (agents j).clusterId ∧
      (reach agents (events ++ later)).phase j ≠ .beating := by
  have hsound := @sound_reach agents (events ++ later)
  have hkept : (reach agents (events ++ later)).Registered (agents i).clusterId := by
    have hstep : ∀ (s : AgentNetwork) e, s.Registered (agents i).clusterId →
        (step agents s e).Registered (agents i).clusterId := fun _ e h => registered_step h e
    rw [reach, run_append]
    exact run_always hstep hi later
  have hnot : ¬ (reach agents (events ++ later)).Registered (agents j).clusterId := by
    intro hj
    obtain ⟨r,hr,hurl⟩ := hsound.address hone hkept
    obtain ⟨r',hr',hurl'⟩ := hsound.address hone hj
    exact hij (addressesUnique_reach hone _ _ _ r r' hr hr' (by rw [hurl, hurl', haddress]))
  exact ⟨hnot,fun hbeating => hnot (hsound.beating j hbeating)⟩

/-- Two clusters that were given the address of one control plane. -/
def sharedAddress (i : ℕ) : ClusterAgent :=
  if i = 0 then ⟨"a","east","http://one:8000/",""⟩ else ⟨"b","west","HTTP://one:8000",""⟩

theorem address_sharedAddress (i : ℕ) :
    normalizeCpUrl (sharedAddress i).publicUrl = "http://one:8000" := by
  rw [sharedAddress]
  split_ifs <;> decide +kernel

theorem oneAddress_sharedAddress : OneAddress sharedAddress := by
  intro i j _
  rw [address_sharedAddress, address_sharedAddress]

theorem address_keeps_first :
    ¬ (reach sharedAddress ([.register 0 [] 0,.deliver 0] ++
        [.register 1 [] 0,.deliver 0,.answer 1])).Registered (sharedAddress 1).clusterId ∧
      (reach sharedAddress ([.register 0 [] 0,.deliver 0] ++
        [.register 1 [] 0,.deliver 0,.answer 1])).phase 1 ≠ .beating :=
  address_keeps (i := 0) oneAddress_sharedAddress _ _ (by decide +kernel)
    (by rw [address_sharedAddress, address_sharedAddress]) (by decide)

end Arsonist.Federation
