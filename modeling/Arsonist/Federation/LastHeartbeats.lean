import Arsonist.Federation.Processes

/-! Heartbeats against the sweep. Both read a record and write it back as a whole later, so that
the sweep can write over a heartbeat that came in between. -/
namespace Arsonist.Federation
open Arsonist.Library Arsonist.Mesh

namespace ControllerState

/-- The stored `last_heartbeat` of the cluster is not before `t`. -/
def HeardSince (s : ControllerState) (c : ClusterId) (t : ℚ) : Prop :=
  ∃ stored, s.registry.getCluster c = some stored ∧ t ≤ stored.lastHeartbeat

/-- The stored `last_heartbeat` of a cluster is the latest of its heartbeats. -/
structure BeatsKept (s : ControllerState) : Prop where
  heard : ∀ c stored, s.registry.getCluster c = some stored →
    (c,stored.lastHeartbeat) ∈ s.beats
  latest : ∀ c t, (c,t) ∈ s.beats → s.HeardSince c t

/-- The sweep works on records that carry a heartbeat of their cluster. -/
def SnapshotHeard (s : ControllerState) : Process → Prop
  | .sweeping _ todo _ => ∀ c ∈ todo, (c.clusterId,c.lastHeartbeat) ∈ s.beats
  | _ => True

/-- The record to be written is not older than the stored one. -/
def NotOlder (s : ControllerState) (written : ClusterRecord) : Prop :=
  ∀ stored, s.registry.getCluster written.clusterId = some stored →
    stored.lastHeartbeat ≤ written.lastHeartbeat

/-- The step of a process loses no heartbeat: a heartbeat finds none that is later than itself,
and the sweep finds the one that it has read, which is too old by the time of the write. -/
def SparesHeartbeat (s : ControllerState) : Process → Prop
  | .storing written => s.NotOlder written
  | .sweeping timeout (c :: _) _ =>
    (∀ stored, s.registry.getCluster c.clusterId = some stored →
      stored.lastHeartbeat = c.lastHeartbeat) ∧
    timeout < s.now-c.lastHeartbeat
  | _ => True

/-- A cluster with a heartbeat within the timeout is not written as offline by the sweep. -/
def SweepsFairly (s : ControllerState) (after : ControllerState) : Process → Prop
  | .sweeping timeout (c :: _) _ =>
    (∃ t, (c.clusterId,t) ∈ s.beats ∧ s.now-t ≤ timeout) →
      (after.registry.getCluster c.clusterId).map (fun c => c.healthState) ≠ some .offline
  | _ => True

variable {s t : ControllerState} {w : ClusterRecord}

/-- A step that writes one cluster keeps all times exactly when it writes none that is older. -/
theorem heardSince_written_iff
    (h : ∀ id, t.registry.getCluster id =
      if id = w.clusterId then some w else s.registry.getCluster id) :
    (∀ c u, s.HeardSince c u → t.HeardSince c u) ↔ s.NotOlder w := by
  constructor
  · intro hkeep stored hget
    obtain ⟨after,hafter,hle⟩ := hkeep w.clusterId stored.lastHeartbeat
      ⟨stored,hget,le_rfl⟩
    rw [h, if_pos rfl] at hafter
    rw [Option.some.inj hafter]
    exact hle
  · rintro hold c u ⟨stored,hget,hle⟩
    by_cases hc : c = w.clusterId
    · subst hc
      exact ⟨w,by rw [h, if_pos rfl],hle.trans (hold stored hget)⟩
    · exact ⟨stored,by rw [h, if_neg hc, hget],hle⟩

theorem BeatsKept.beat (h : s.BeatsKept) (hold : s.NotOlder w) :
    (s.beat w).BeatsKept := by
  have hget : ∀ id, (s.beat w).registry.getCluster id =
      if id = w.clusterId then some w else s.registry.getCluster id := fun id =>
    FederationRegistry.getCluster_upsertCluster w id
  refine ⟨fun c stored hstored => ?_,fun c u hmem => ?_⟩
  · rw [hget] at hstored
    by_cases hc : c = w.clusterId
    · rw [if_pos hc] at hstored
      rw [hc, ← Option.some.inj hstored]
      exact List.mem_cons_self
    · rw [if_neg hc] at hstored
      exact List.mem_cons_of_mem _ (h.heard c stored hstored)
  · obtain he | hmem := List.mem_cons.mp hmem
    · obtain ⟨rfl,rfl⟩ := Prod.mk.inj he
      exact ⟨w,by rw [hget, if_pos rfl],le_rfl⟩
    · exact (heardSince_written_iff hget).mpr hold c u (h.latest c u hmem)

/-- The sweep writes the stored time again. -/
theorem BeatsKept.sweep {c : ClusterRecord} (h : s.BeatsKept)
    (hmem : (c.clusterId,c.lastHeartbeat) ∈ s.beats) (hold : s.NotOlder (offlineRecord c)) :
    (s.upsert (offlineRecord c)).BeatsKept := by
  have hget : ∀ id, (s.upsert (offlineRecord c)).registry.getCluster id =
      if id = c.clusterId then some (offlineRecord c) else s.registry.getCluster id := fun id =>
    FederationRegistry.getCluster_upsertCluster (offlineRecord c) id
  refine ⟨fun d stored hstored => ?_,fun d u hd => ?_⟩
  · rw [hget] at hstored
    by_cases hc : d = c.clusterId
    · rw [if_pos hc] at hstored
      rw [hc, ← Option.some.inj hstored]
      exact hmem
    · rw [if_neg hc] at hstored
      exact h.heard d stored hstored
  · exact (heardSince_written_iff hget).mpr hold d u (h.latest d u hd)

/-- The sweep of one cluster: it keeps the time and is fair exactly when the stored heartbeat is
the one that it has read, and too old. -/
theorem sweep_iff {timeout : ℚ} {c : ClusterRecord} {todo : List ClusterRecord}
    {dead : List ClusterId} (h : s.BeatsKept)
    (hmem : (c.clusterId,c.lastHeartbeat) ∈ s.beats) :
    (∀ d u, s.HeardSince d u → (s.upsert (offlineRecord c)).HeardSince d u) ∧
      s.SweepsFairly (s.upsert (offlineRecord c)) (.sweeping timeout (c :: todo) dead) ↔
    s.SparesHeartbeat (.sweeping timeout (c :: todo) dead) := by
  have hget : ∀ id, (s.upsert (offlineRecord c)).registry.getCluster id =
      if id = c.clusterId then some (offlineRecord c) else s.registry.getCluster id := fun id =>
    FederationRegistry.getCluster_upsertCluster (offlineRecord c) id
  have hoffline : ((s.upsert (offlineRecord c)).registry.getCluster c.clusterId).map
      (fun c => c.healthState) = some .offline := by
    rw [hget, if_pos rfl]
    rfl
  obtain ⟨stored,hstored,hle⟩ := h.latest _ _ hmem
  rw [heardSince_written_iff (w := offlineRecord c) hget, SweepsFairly, SparesHeartbeat]
  constructor
  · rintro ⟨hold,hfair⟩
    refine ⟨fun other hother => le_antisymm (hold other hother) ?_,?_⟩
    · rw [hstored] at hother
      exact Option.some.inj hother ▸ hle
    · by_contra hlt
      exact hfair ⟨c.lastHeartbeat,hmem,not_lt.mp hlt⟩ hoffline
  · rintro ⟨hsame,hlate⟩
    refine ⟨fun other hother => (hsame other hother).le,?_⟩
    rintro ⟨u,hu,hrecent⟩
    obtain ⟨other,hother,hule⟩ := h.latest _ _ hu
    rw [hsame other hother] at hule
    linarith

/-- A step that writes no cluster keeps all times. -/
theorem heardSince_next {p : Process} (h : writtenCluster p = none)
    (pushError : Option String) {c : ClusterId} {u : ℚ} (hs : s.HeardSince c u) :
    (next s p pushError).1.HeardSince c u := by
  obtain ⟨stored,hget,hle⟩ := hs
  exact ⟨stored,by rw [getCluster_next, h, hget],hle⟩

theorem beats_next {p : Process} (h : writtenCluster p = none) (pushError : Option String) :
    (next s p pushError).1.beats = s.beats := by
  cases p with
  | deciding gj =>
    rw [next]
    split <;> rfl
  | fetching routed target =>
    rw [next]
    split <;> rfl
  | pushing routed cluster => cases pushError <;> rfl
  | completing payload =>
    rw [next]
    split <;> rfl
  | beating payload =>
    rw [next]
    split <;> rfl
  | storing written => cases h
  | sweeping timeout todo dead => cases todo <;> rfl
  | failover dead => cases dead <;> rfl
  | rerouting dead others todo pushes rest => cases todo <;> rfl
  | handing pushes rest => cases pushes <;> rfl
  | _ => rfl

theorem BeatsKept.idle {p : Process} (h : s.BeatsKept) (hp : writtenCluster p = none)
    (pushError : Option String) : (next s p pushError).1.BeatsKept := by
  refine ⟨fun c stored hget => ?_,fun c u hmem => ?_⟩
  · rw [getCluster_next, hp] at hget
    rw [beats_next hp]
    exact h.heard c stored hget
  · rw [beats_next hp] at hmem
    exact heardSince_next hp pushError (h.latest c u hmem)

/-- What one step of a process does to the times and to the cluster it sweeps. -/
theorem spares_next {p : Process} (pushError : Option String) (h : s.BeatsKept)
    (hp : s.SnapshotHeard p) :
    (∀ c u, s.HeardSince c u → (next s p pushError).1.HeardSince c u) ∧
      s.SweepsFairly (next s p pushError).1 p ↔ s.SparesHeartbeat p := by
  have hidle : writtenCluster p = none → s.SweepsFairly (next s p pushError).1 p →
      s.SparesHeartbeat p → ((∀ c u, s.HeardSince c u →
        (next s p pushError).1.HeardSince c u) ∧ s.SweepsFairly (next s p pushError).1 p ↔
      s.SparesHeartbeat p) := fun hnone hfair hspares =>
    iff_of_true ⟨fun c u => heardSince_next hnone pushError,hfair⟩ hspares
  cases p with
  | storing written =>
    refine (and_iff_left trivial).trans (heardSince_written_iff fun id => ?_)
    rw [getCluster_next]
    rfl
  | sweeping timeout todo dead =>
    cases todo with
    | nil => exact hidle rfl trivial trivial
    | cons c todo => exact sweep_iff h (hp c List.mem_cons_self)
  | _ => exact hidle rfl trivial trivial

/-- A step that loses no heartbeat keeps the history in agreement with the records. -/
theorem BeatsKept.next {p : Process} (pushError : Option String) (h : s.BeatsKept)
    (hp : s.SnapshotHeard p) (hspares : s.SparesHeartbeat p) :
    (next s p pushError).1.BeatsKept := by
  cases p with
  | storing written => exact h.beat hspares
  | sweeping timeout todo dead =>
    cases todo with
    | nil => exact h.idle rfl pushError
    | cons c todo =>
      exact h.sweep (hp c List.mem_cons_self) fun stored hget => (hspares.1 stored hget).le
  | _ => exact h.idle rfl pushError

theorem beats_subset_next (s : ControllerState) (p : Process) (pushError : Option String) :
    s.beats ⊆ (next s p pushError).1.beats := by
  cases hp : writtenCluster p with
  | none => rw [beats_next hp]; exact List.Subset.refl _
  | some w =>
    cases p with
    | storing written => exact List.subset_cons_self _ _
    | sweeping timeout todo dead => cases todo <;> exact List.Subset.refl _
    | _ => cases hp

theorem SnapshotHeard.mono {p : Process} (hst : s.beats ⊆ t.beats) (h : s.SnapshotHeard p) :
    t.SnapshotHeard p := by
  cases p with
  | sweeping timeout todo dead => exact fun c hc => hst (h c hc)
  | _ => trivial

theorem snapshotHeard_next {p : Process} (pushError : Option String) (h : s.BeatsKept)
    (hp : s.SnapshotHeard p) :
    (next s p pushError).1.SnapshotHeard (next s p pushError).2 := by
  cases p with
  | listing timeout now =>
    intro c hc
    exact h.heard c.clusterId c
      (FederationRegistry.mem_listClusters.mp (List.mem_filter.mp hc).1)
  | sweeping timeout todo dead =>
    cases todo with
    | nil => trivial
    | cons c todo => exact fun d hd => hp d (List.mem_cons_of_mem c hd)
  | deciding gj =>
    rw [next]
    split <;> trivial
  | fetching routed target =>
    rw [next]
    split <;> trivial
  | pushing routed cluster => cases pushError <;> trivial
  | completing payload =>
    rw [next]
    split <;> trivial
  | beating payload =>
    rw [next]
    split <;> trivial
  | failover dead => cases dead <;> trivial
  | rerouting dead others todo pushes rest => cases todo <;> trivial
  | handing pushes rest => cases pushes <;> trivial
  | _ => trivial

end ControllerState

namespace Controller
open ControllerState

/-- No step loses a heartbeat: those of the processes do not, and a registration does not find
one that is later than its own time. -/
def SparesHeartbeats (s : Controller) : ControllerEvent → Prop
  | .outside (.register body) => urlHolder s.shared.registry body = none →
      s.shared.NotOlder (registrationRecord s.shared.registry s.shared.now body)
  | .advance i _ => ∀ p, s.procs[i]? = some p → s.shared.SparesHeartbeat p
  | _ => True

/-- The stored times never decrease, and no sweep leaves a cluster offline that has sent a
heartbeat within the timeout before the write. -/
def HeartbeatsKept (events : List ControllerEvent) : Prop :=
  (∀ p q r, events = p ++ q ++ r → ∀ c t, (reach p).shared.HeardSince c t →
    (reach (p ++ q)).shared.HeardSince c t) ∧
  ∀ p i pushError q, events = p ++ .advance i pushError :: q → ∀ process,
    (reach p).procs[i]? = some process →
    (reach p).shared.SweepsFairly (reach (p ++ [.advance i pushError])).shared process

/-- The step version of `HeartbeatsKept`. -/
def KeepsHeartbeats (s : Controller) (e : ControllerEvent) : Prop :=
  (∀ x : ClusterId × ℚ, s.shared.HeardSince x.1 x.2 →
    (s.step controller e).shared.HeardSince x.1 x.2) ∧
  Pool.AtAdvance (fun s i p pushError =>
    s.shared.SweepsFairly (s.step controller (.advance i pushError)).shared p) s e

theorem heartbeatsKept_iff_along (events : List ControllerEvent) :
    HeartbeatsKept events ↔ Along (Pool.step controller) KeepsHeartbeats ⟨{},[]⟩ events := by
  have hstays := @stays_iff _ _ (Pool.step controller) _
    (fun (x : ClusterId × ℚ) (s : Controller) => s.shared.HeardSince x.1 x.2) ⟨{},[]⟩ events
  unfold KeepsHeartbeats
  rw [along_and, ← hstays, along_iff, HeartbeatsKept]
  refine and_congr ?_ ?_
  · exact ⟨fun h p q r hp x => h p q r hp x.1 x.2,fun h p q r hp c t => h p q r hp (c,t)⟩
  · constructor
    · intro h p e q hp
      cases e with
      | advance i pushError =>
        intro process hprocess
        have hfair := h p i pushError q hp process hprocess
        rw [reach, reach, run_concat] at hfair
        exact hfair
      | _ => trivial
    · intro h p i pushError q hp process hprocess
      have hfair := h p _ q hp process hprocess
      rw [reach, reach, run_concat]
      exact hfair

/-- A registration loses no heartbeat exactly when it finds none that is later. -/
theorem register_iff (s : Controller) (body : ClusterRegistration) :
    s.KeepsHeartbeats (.outside (.register body)) ↔
      s.SparesHeartbeats (.outside (.register body)) := by
  refine (and_iff_left trivial).trans ?_
  change (∀ x : ClusterId × ℚ, s.shared.HeardSince x.1 x.2 →
    (outside s.shared (.register body)).HeardSince x.1 x.2) ↔ (_ → _)
  rw [outside]
  cases hholder : urlHolder s.shared.registry body with
  | some c => exact iff_of_true (fun _ hx => hx) fun h => by cases h
  | none =>
    have hget : ∀ id, (s.shared.beat (registrationRecord s.shared.registry s.shared.now
        body)).registry.getCluster id = if id = (registrationRecord s.shared.registry
          s.shared.now body).clusterId then
            some (registrationRecord s.shared.registry s.shared.now body)
          else s.shared.registry.getCluster id := fun id =>
      FederationRegistry.getCluster_upsertCluster _ id
    refine Iff.trans ?_ ((heardSince_written_iff hget).trans ⟨fun h _ => h,fun h => h rfl⟩)
    exact ⟨fun h c u => h (c,u),fun h x => h x.1 x.2⟩

/-- What holds along a run that has lost no heartbeat so far. -/
def Kept (s : Controller) : Prop := s.Holds BeatsKept SnapshotHeard

theorem keepsHeartbeats_iff {s : Controller} (h : s.Kept) (e : ControllerEvent) :
    s.KeepsHeartbeats e ↔ s.SparesHeartbeats e := by
  cases e with
  | outside e =>
    cases e with
    | clock now => exact iff_of_true ⟨fun _ hx => hx,trivial⟩ trivial
    | register body => exact register_iff s body
  | start request => exact iff_of_true ⟨fun _ hx => hx,trivial⟩ trivial
  | advance i pushError =>
    rw [KeepsHeartbeats, SparesHeartbeats, Pool.AtAdvance]
    cases hp : s.procs[i]? with
    | none =>
      rw [Pool.step_advance_none hp]
      refine iff_of_true ⟨fun _ hx => hx,fun p hi => ?_⟩ fun p hi => ?_
      · cases hi
      · cases hi
    | some p =>
      have hspares := spares_next pushError h.1 (h.2 p (Pool.mem_of_getElem? hp))
      rw [Pool.step_advance hp]
      constructor
      · rintro ⟨hkeep,hfair⟩ q hq
        obtain rfl := Option.some.inj hq
        exact hspares.mp ⟨fun c u => hkeep (c,u),hfair p rfl⟩
      · intro hcond
        obtain ⟨hkeep,hfair⟩ := hspares.mpr (hcond p rfl)
        refine ⟨fun x => hkeep x.1 x.2,fun q hq => ?_⟩
        obtain rfl := Option.some.inj hq
        exact hfair

theorem Kept.step {s : Controller} (h : s.Kept) {e : ControllerEvent}
    (hspares : s.SparesHeartbeats e) : Kept (s.step controller e) := by
  cases e with
  | outside e =>
    cases e with
    | clock now => exact h.outside ⟨h.1.heard,h.1.latest⟩ fun p hp => hp.mono (List.Subset.refl _)
    | register body =>
      refine Pool.Holds.outside h ?_ fun p hp => hp.mono ?_
      · change (outside s.shared (.register body)).BeatsKept
        rw [outside]
        cases hholder : urlHolder s.shared.registry body with
        | some c => exact h.1
        | none => exact h.1.beat (hspares hholder)
      · change s.shared.beats ⊆ (outside s.shared (.register body)).beats
        rw [outside]
        cases urlHolder s.shared.registry body with
        | some c => exact List.Subset.refl _
        | none => exact List.subset_cons_self _ _
  | start request =>
    refine Pool.Holds.start h ?_
    cases request <;> trivial
  | advance i pushError =>
    exact Pool.Holds.advance h fun p hp hheard =>
      ⟨h.1.next pushError hheard (hspares p hp),snapshotHeard_next pushError h.1 hheard,
        fun q hq => hq.mono (beats_subset_next s.shared p pushError)⟩

/-- No heartbeat is lost in a run if and only if none of its steps loses one. -/
theorem heartbeatsKept_iff (events : List ControllerEvent) :
    HeartbeatsKept events ↔ Along (Pool.step controller) SparesHeartbeats ⟨{},[]⟩ events := by
  rw [heartbeatsKept_iff_along]
  refine along_congr (I := Kept)
    (fun s e hkeep h => h.step ((keepsHeartbeats_iff h e).mp hkeep))
    (fun s e h => keepsHeartbeats_iff h e) ⟨⟨fun c stored hget => ?_,fun c t hmem => ?_⟩,?_⟩
  · cases hget
  · cases hmem
  · intro p hp
    cases hp

end Controller

/-- Cluster `c` registers at time 1 and is silent until time 100; a sweep reads it then, and
before the sweep writes, a heartbeat of `c` arrives. -/
def beatBetween : List ControllerEvent :=
  [.outside (.clock 1),
   .outside (.register { clusterId := "c", controlPlaneUrl := "http://c:8000" }),
   .outside (.clock 100),.start (.watch 45),.advance 0 none,.advance 0 none,
   .start (.heartbeat { clusterId := "c" }),.advance 1 none,.advance 1 none,.advance 1 none]

/-- The sweep writes the older heartbeat back and leaves the cluster offline. -/
theorem not_heartbeatsKept :
    ¬ ∀ events : List ControllerEvent, Controller.HeartbeatsKept events := by
  intro h
  have hbeat : ((Controller.reach beatBetween).shared.registry.getCluster "c").map
      (fun c => c.lastHeartbeat) = some 100 := by decide +kernel
  have hafter : ((Controller.reach (beatBetween ++ [.advance 0 none])).shared.registry.getCluster
      "c").map (fun c => c.lastHeartbeat) = some 1 := by decide +kernel
  obtain ⟨stored,hget,htime⟩ := Option.map_eq_some_iff.mp hbeat
  obtain ⟨after,hget',hle⟩ := (h (beatBetween ++ [.advance 0 none])).1 beatBetween
    [.advance 0 none] [] (by simp) "c" 100 ⟨stored,hget,htime.ge⟩
  rw [hget', Option.map_some] at hafter
  rw [Option.some.inj hafter] at hle
  norm_num at hle

end Arsonist.Federation
