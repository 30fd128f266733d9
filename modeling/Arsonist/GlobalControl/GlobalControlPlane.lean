import Arsonist.GlobalControl.GlobalState
import Arsonist.Library.Slots
import Arsonist.Regions.RegionRegistry

/-! The regions of `global_control/global_control_plane.py`: a registration and a removal write the
region registry first and the global state second, and what else happens to a region is written to
the registry alone. All calls run at the same time, each step one read or one write of a store. -/
namespace Arsonist.GlobalControl
open Arsonist.Library Arsonist.Regions

/-- What `register_region` and `remove_region` write to both stores. -/
inductive RegionWrite
  | registered (region : RegionRecord)
  | removed (id : String)

namespace RegionWrite

def id : RegionWrite → String
  | registered region => region.regionId
  | removed id => id

def record? : RegionWrite → Option RegionRecord
  | registered region => some region
  | removed _ => none

/-- The writes about a region. -/
def about (id : String) (log : List RegionWrite) : List RegionWrite :=
  log.filter fun w => w.id = id

/-- The record that the last write about a region left. -/
def lastRecord (id : String) (log : List RegionWrite) : Option RegionRecord :=
  (about id log).getLast?.bind record?

theorem about_concat (id : String) (log : List RegionWrite) (w : RegionWrite) :
    about id (log ++ [w]) = about id log ++ if w.id = id then [w] else [] := by
  rw [about, List.filter_append, about]
  by_cases h : w.id = id <;> simp [h]

theorem lastRecord_concat (id : String) (log : List RegionWrite) (w : RegionWrite) :
    lastRecord id (log ++ [w]) = if w.id = id then w.record? else lastRecord id log := by
  rw [lastRecord, about_concat]
  split_ifs
  · rw [List.getLast?_concat, Option.bind_some]
  · rw [List.append_nil, lastRecord]

theorem lastRecord_registered (id : String) (log : List RegionWrite) (region : RegionRecord) :
    lastRecord id (log ++ [registered region]) =
      if id = region.regionId then some region else lastRecord id log := by
  rw [lastRecord_concat]
  exact if_congr eq_comm rfl rfl

theorem lastRecord_removed (id : String) (log : List RegionWrite) (id' : String) :
    lastRecord id (log ++ [removed id']) = if id = id' then none else lastRecord id log := by
  rw [lastRecord_concat]
  exact if_congr eq_comm rfl rfl

end RegionWrite

/-- A change of a record in the registry: a heartbeat, or a status of the health monitor. -/
inductive RegionChange
  | heartbeat (updates : Metrics)
  | health (status : RegionStatus)

def RegionChange.apply (now : ℚ) (r : RegionRecord) : RegionChange → RegionRecord
  | heartbeat updates => r.report now updates
  | health status => r.setStatus status

/-- The two stores, and as history the writes that each of them got. -/
structure PlaneState where
  registry : RegionRegistry := {}
  state : GlobalState := {}
  now : ℚ := 0
  written : List RegionWrite := []
  published : List RegionWrite := []

/-- Where a call stands: the next thing that it does. -/
inductive PlaneTask
  | write (w : RegionWrite)
  | publish (w : RegionWrite)
  | reading (id : String) (change : RegionChange)
  | storing (region : RegionRecord)
  | done

namespace PlaneTask

/-- The region that a registration or a removal is about. -/
def region? : PlaneTask → Option String
  | write w => some w.id
  | publish w => some w.id
  | _ => none

end PlaneTask

inductive PlaneRequest
  | register (region : RegionRecord)
  | remove (id : String)
  | update (id : String) (change : RegionChange)

def PlaneRequest.task : PlaneRequest → PlaneTask
  | register region => .write (.registered region)
  | remove id => .write (.removed id)
  | update id change => .reading id change

/-- The clock, and the writes to the global state that are not about regions. -/
inductive StoreEvent (V : Type*)
  | clock (now : ℚ)
  | put (ns key : String) (value : V) (hns : ns ≠ "regions")
  | delete (ns key : String) (hns : ns ≠ "regions")

section Plane
variable {V : Type*} (codec : JsonCodec V) (dump : RegionRecord → V)

def planeOutside (s : PlaneState) : StoreEvent V → PlaneState
  | .clock now => { s with now := now }
  | .put ns key value _ => { s with state := (s.state.put codec s.now ns key value).1 }
  | .delete ns key _ => { s with state := (s.state.delete ns key).1 }

/-- The first write of a registration or a removal. The registration stamps the record, which is
the one that it publishes. -/
def planeWrite (s : PlaneState) : RegionWrite → PlaneState × RegionWrite
  | .registered region =>
    ({ s with registry := s.registry.register s.now region
              written := s.written ++ [.registered { region with lastHeartbeat := s.now }] },
      .registered { region with lastHeartbeat := s.now })
  | .removed id =>
    ({ s with registry := s.registry.remove id
              written := s.written ++ [.removed id] },.removed id)

def planePublish (s : PlaneState) (w : RegionWrite) : PlaneState :=
  match w with
  | .registered region =>
    { s with state := (s.state.put codec s.now "regions" region.regionId (dump region)).1
             published := s.published ++ [.registered region] }
  | .removed id =>
    { s with state := (s.state.delete "regions" id).1
             published := s.published ++ [.removed id] }

/-- `UPDATE … WHERE region_id = ?` touches nothing where the row is gone. -/
def planeStore (s : PlaneState) (region : RegionRecord) : PlaneState :=
  match s.registry.get region.regionId with
  | none => s
  | some _ => { s with registry := ⟨s.registry.rows.put region⟩ }

def planeNext (s : PlaneState) (t : PlaneTask) (_ : Unit) : PlaneState × PlaneTask :=
  match t with
  | .write w => ((planeWrite s w).1,.publish (planeWrite s w).2)
  | .publish w => (planePublish codec dump s w,.done)
  | .reading id change =>
    match s.registry.get id with
    | none => (s,.done)
    | some r => (s,.storing (change.apply s.now r))
  | .storing region => (planeStore s region,.done)
  | .done => (s,.done)

def globalControlPlane : Program PlaneState PlaneTask (StoreEvent V) PlaneRequest Unit :=
  ⟨planeOutside codec,PlaneRequest.task,planeNext codec dump⟩

end Plane

abbrev GlobalControlPlane := Pool PlaneState PlaneTask

namespace GlobalControlPlane
variable {V : Type*} (codec : JsonCodec V) (dump : RegionRecord → V)

def reach (events : List (PoolEvent (StoreEvent V) PlaneRequest Unit)) : GlobalControlPlane :=
  run (Pool.step (globalControlPlane codec dump)) ⟨{},[]⟩ events

/-- The regions that a registration or a removal is under way for. -/
def underWay (s : GlobalControlPlane) : List String := s.procs.filterMap PlaneTask.region?

/-- A registration or a removal starts when no other one is under way for its region. -/
def Starts (s : GlobalControlPlane) : PoolEvent (StoreEvent V) PlaneRequest Unit → Prop
  | .start request => ∀ id ∈ request.task.region?, id ∉ s.underWay
  | _ => True

/-- The registry has the regions that it was told of, and the global state shows the records as they
were published. -/
structure Recorded (s : PlaneState) : Prop where
  registry : ∀ id, (s.registry.get id).isSome ↔ (RegionWrite.lastRecord id s.written).isSome
  state : ∀ id, (s.state.get codec "regions" id).map Entry.value =
    (RegionWrite.lastRecord id s.published).map fun r => codec.readBack (dump r)

variable {codec dump} {s : PlaneState}

theorem Recorded.write (h : Recorded codec dump s) (w : RegionWrite) :
    Recorded codec dump (planeWrite s w).1 := by
  cases w with
  | registered region =>
    refine ⟨fun id => ?_,h.state⟩
    simp only [planeWrite, RegionWrite.lastRecord_registered]
    change ((s.registry.rows.replace { region with lastHeartbeat := s.now }).get? id).isSome ↔ _
    rw [Table.get?_replace]
    change (if id = region.regionId then _ else s.registry.get id).isSome ↔ _
    split_ifs
    · exact Iff.rfl
    · exact h.registry id
  | removed id' =>
    refine ⟨fun id => ?_,h.state⟩
    simp only [planeWrite, RegionWrite.lastRecord_removed]
    change ((s.registry.rows.erase id').get? id).isSome ↔ _
    rw [Table.get?_erase]
    split_ifs
    · exact Iff.rfl
    · exact h.registry id

theorem Recorded.publish (h : Recorded codec dump s) (w : RegionWrite) :
    Recorded codec dump (planePublish codec dump s w) := by
  cases w with
  | registered region =>
    refine ⟨h.registry,fun id => ?_⟩
    simp only [planePublish, RegionWrite.lastRecord_registered, GlobalState.get_put,
      Prod.mk.injEq, true_and]
    split_ifs
    · rfl
    · exact h.state id
  | removed id' =>
    refine ⟨h.registry,fun id => ?_⟩
    simp only [planePublish, RegionWrite.lastRecord_removed, GlobalState.get_delete,
      Prod.mk.injEq, true_and]
    split_ifs
    · rfl
    · exact h.state id

/-- A change of a record adds no region and takes none away. -/
theorem Recorded.store (h : Recorded codec dump s) (region : RegionRecord) :
    Recorded codec dump (planeStore s region) := by
  unfold planeStore
  cases hget : s.registry.get region.regionId with
  | none => exact h
  | some r =>
    refine ⟨fun id => ?_,h.state⟩
    rw [← h.registry id]
    change ((s.registry.rows.put region).get? id).isSome ↔ _
    rw [Table.get?_put]
    change (if id = region.regionId then _ else s.registry.get id).isSome ↔ _
    split_ifs with hid
    · rw [hid, hget]
      exact Iff.rfl
    · exact Iff.rfl

theorem Recorded.outside (h : Recorded codec dump s) (e : StoreEvent V) :
    Recorded codec dump (planeOutside codec s e) := by
  cases e with
  | clock now => exact ⟨h.registry,h.state⟩
  | put ns key value hns =>
    refine ⟨h.registry,fun id => ?_⟩
    simp only [planeOutside, GlobalState.get_put]
    rw [if_neg fun he => hns (Prod.mk.inj he).1.symm]
    exact h.state id
  | delete ns key hns =>
    refine ⟨h.registry,fun id => ?_⟩
    simp only [planeOutside, GlobalState.get_delete]
    rw [if_neg fun he => hns (Prod.mk.inj he).1.symm]
    exact h.state id

theorem Recorded.next (h : Recorded codec dump s) (t : PlaneTask) :
    Recorded codec dump (planeNext codec dump s t ()).1 := by
  cases t with
  | write w => exact h.write w
  | publish w => exact h.publish w
  | reading id change =>
    rw [planeNext]
    cases s.registry.get id <;> exact h
  | storing region => exact h.store region
  | done => exact h

/-- Of each region one call is under way at most, and the stores have got the same writes about it,
but for the one that is to be published. -/
structure Mirrored (s : GlobalControlPlane) : Prop where
  alone : s.underWay.Nodup
  pending : ∀ w, .publish w ∈ s.procs → RegionWrite.about w.id s.shared.written =
    RegionWrite.about w.id s.shared.published ++ [w]
  settled : ∀ id, (∀ w, .publish w ∈ s.procs → w.id ≠ id) →
    RegionWrite.about id s.shared.written = RegionWrite.about id s.shared.published

theorem written_planeWrite (s : PlaneState) (w : RegionWrite) :
    (planeWrite s w).2.id = w.id ∧ (planeWrite s w).1.written = s.written ++ [(planeWrite s w).2] ∧
      (planeWrite s w).1.published = s.published := by
  cases w <;> exact ⟨rfl,rfl,rfl⟩

theorem published_planePublish (s : PlaneState) (w : RegionWrite) :
    (planePublish codec dump s w).published = s.published ++ [w] ∧
      (planePublish codec dump s w).written = s.written := by
  cases w <;> exact ⟨rfl,rfl⟩

section Step
variable {s : GlobalControlPlane} {i : ℕ} {t t' : PlaneTask}

theorem publish_mem_iff (hi : s.procs[i]? = some t) (w : RegionWrite) :
    PlaneTask.publish w ∈ s.procs ↔
      t = .publish w ∨ PlaneTask.publish w ∈ s.procs.eraseIdx i := by
  simpa [Pool.Others] using Pool.exists_iff_others hi fun u => u = .publish w

theorem publish_mem_set_iff (hi : s.procs[i]? = some t) (w : RegionWrite) :
    PlaneTask.publish w ∈ s.procs.set i t' ↔
      t' = .publish w ∨ PlaneTask.publish w ∈ s.procs.eraseIdx i := by
  have hiff : (∃ u ∈ s.procs.set i t', u = .publish w) ↔ _ :=
    Pool.exists_set_iff_others hi fun u => u = .publish w
  simpa [Pool.Others] using hiff

/-- No other call is to publish something about the region of a call. -/
theorem Mirrored.others (h : s.Mirrored) (hi : s.procs[i]? = some t) {id : String}
    (ht : t.region? = some id) {w : RegionWrite}
    (hw : PlaneTask.publish w ∈ s.procs.eraseIdx i) : w.id ≠ id := by
  have hold := Pool.filterMap_perm_others hi PlaneTask.region?
  rw [ht] at hold
  have hnodup := List.nodup_cons.mp (hold.nodup_iff.mp h.alone)
  rintro rfl
  exact hnodup.1 (List.mem_filterMap.mpr ⟨_,hw,rfl⟩)

/-- The step leaves the regions that calls are under way for, or takes its own away. -/
theorem Mirrored.alone_set (h : s.Mirrored) (hi : s.procs[i]? = some t)
    (ht : t'.region? = t.region? ∨ t'.region? = none) :
    ((s.procs.set i t').filterMap PlaneTask.region?).Nodup := by
  have hold := Pool.filterMap_perm_others hi PlaneTask.region?
  have hnew := Pool.filterMap_set_perm_others hi t' PlaneTask.region?
  have hnodup := hold.nodup_iff.mp h.alone
  refine hnew.nodup_iff.mpr ?_
  obtain ht | ht := ht
  · rwa [ht]
  · rw [ht]
    exact (List.nodup_append.mp hnodup).2.1

/-- The step of a task that writes neither the one store nor the other. -/
theorem Mirrored.idle (h : s.Mirrored) (hi : s.procs[i]? = some t) (ht : t.region? = none)
    (ht' : t'.region? = none) {shared : PlaneState}
    (hwritten : shared.written = s.shared.written)
    (hpublished : shared.published = s.shared.published) :
    Mirrored ⟨shared,s.procs.set i t'⟩ := by
  have hmem : ∀ w, PlaneTask.publish w ∈ s.procs.set i t' ↔ PlaneTask.publish w ∈ s.procs := by
    intro w
    rw [publish_mem_iff hi, publish_mem_set_iff hi]
    refine or_congr_left (iff_of_false ?_ ?_)
    · rintro rfl
      cases ht'
    · rintro rfl
      cases ht
  refine ⟨h.alone_set hi (Or.inr ht'),fun w hw => ?_,fun id hid => ?_⟩
  · change RegionWrite.about w.id shared.written = _
    rw [hwritten, hpublished]
    exact h.pending w ((hmem w).mp hw)
  · change RegionWrite.about id shared.written = _
    rw [hwritten, hpublished]
    exact h.settled id fun w hw => hid w ((hmem w).mpr hw)

theorem Mirrored.write {w : RegionWrite} (h : s.Mirrored) (hi : s.procs[i]? = some (.write w)) :
    Mirrored ⟨(planeWrite s.shared w).1,s.procs.set i (.publish (planeWrite s.shared w).2)⟩ := by
  obtain ⟨hid,hwritten,hpublished⟩ := written_planeWrite s.shared w
  generalize (planeWrite s.shared w).1 = shared at hwritten hpublished
  generalize (planeWrite s.shared w).2 = w' at hid hwritten
  have hold : ∀ v, PlaneTask.publish v ∈ s.procs → PlaneTask.publish v ∈ s.procs.eraseIdx i := by
    intro v hv
    exact ((publish_mem_iff hi v).mp hv).resolve_left fun heq => by cases heq
  refine ⟨h.alone_set hi (Or.inl (congrArg some hid)),fun v hv => ?_,
    fun id hv => ?_⟩
  · change RegionWrite.about v.id shared.written = RegionWrite.about v.id shared.published ++ [v]
    rw [hwritten, hpublished, RegionWrite.about_concat]
    obtain heq | hv := (publish_mem_set_iff hi v).mp hv
    · cases heq
      rw [if_pos rfl, hid, h.settled w.id fun v hv => h.others hi rfl (hold v hv)]
    · have hne := h.others hi rfl hv
      rw [if_neg fun heq => hne (heq.symm.trans hid), List.append_nil]
      exact h.pending v ((publish_mem_iff hi v).mpr (Or.inr hv))
  · change RegionWrite.about id shared.written = RegionWrite.about id shared.published
    have hne : w'.id ≠ id := hv w' ((publish_mem_set_iff hi w').mpr (Or.inl rfl))
    rw [hwritten, hpublished, RegionWrite.about_concat, if_neg hne, List.append_nil]
    exact h.settled id fun v hmem => hv v ((publish_mem_set_iff hi v).mpr (Or.inr (hold v hmem)))

theorem Mirrored.publish {w : RegionWrite} (h : s.Mirrored)
    (hi : s.procs[i]? = some (.publish w)) :
    Mirrored ⟨planePublish codec dump s.shared w,s.procs.set i .done⟩ := by
  obtain ⟨hpublished,hwritten⟩ :
      (planePublish codec dump s.shared w).published = s.shared.published ++ [w] ∧
        (planePublish codec dump s.shared w).written = s.shared.written :=
    published_planePublish s.shared w
  generalize planePublish codec dump s.shared w = shared at hpublished hwritten
  have hset : ∀ v, PlaneTask.publish v ∈ s.procs.set i .done →
      PlaneTask.publish v ∈ s.procs.eraseIdx i := by
    intro v hv
    exact ((publish_mem_set_iff hi v).mp hv).resolve_left fun heq => by cases heq
  refine ⟨h.alone_set hi (Or.inr rfl),fun v hv => ?_,fun id hv => ?_⟩
  · change RegionWrite.about v.id shared.written = RegionWrite.about v.id shared.published ++ [v]
    have hne : v.id ≠ w.id := h.others hi rfl (hset v hv)
    rw [hwritten, hpublished, RegionWrite.about_concat, if_neg hne.symm, List.append_nil]
    exact h.pending v ((publish_mem_iff hi v).mpr (Or.inr (hset v hv)))
  · change RegionWrite.about id shared.written = RegionWrite.about id shared.published
    rw [hwritten, hpublished, RegionWrite.about_concat]
    split_ifs with hid
    · subst hid
      exact h.pending w ((publish_mem_iff hi w).mpr (Or.inl rfl))
    · rw [List.append_nil]
      refine h.settled id fun v hmem => ?_
      obtain heq | hmem := (publish_mem_iff hi v).mp hmem
      · cases heq
        exact hid
      · exact hv v ((publish_mem_set_iff hi v).mpr (Or.inr hmem))

end Step

variable {s : GlobalControlPlane}

theorem Mirrored.step (h : s.Mirrored) {e : PoolEvent (StoreEvent V) PlaneRequest Unit}
    (hstarts : s.Starts e) : Mirrored (Pool.step (globalControlPlane codec dump) s e) := by
  cases e with
  | outside e => cases e <;> exact ⟨h.alone,h.pending,h.settled⟩
  | start request =>
    have hmem : ∀ w, PlaneTask.publish w ∈ s.procs ++ [request.task] ↔
        PlaneTask.publish w ∈ s.procs := by
      intro w
      rw [List.mem_append]
      refine or_iff_left ?_
      cases request <;> simp [PlaneRequest.task]
    refine ⟨?_,fun w hw => h.pending w ((hmem w).mp hw),
      fun id hid => h.settled id fun w hw => hid w ((hmem w).mpr hw)⟩
    change ((s.procs ++ [request.task]).filterMap PlaneTask.region?).Nodup
    rw [List.filterMap_append, List.nodup_append_comm]
    change ([request.task].filterMap PlaneTask.region? ++ s.underWay).Nodup
    cases hid : request.task.region? with
    | none => simpa [hid] using h.alone
    | some id =>
      have hfree : id ∉ s.underWay := hstarts id hid
      simpa [hid] using And.intro hfree h.alone
  | advance i input =>
    cases hi : s.procs[i]? with
    | none =>
      rw [Pool.step_advance_none hi]
      exact h
    | some t =>
      rw [Pool.step_advance hi]
      cases t with
      | write w => exact h.write hi
      | publish w => exact h.publish hi
      | reading id change =>
        change Mirrored ⟨(planeNext codec dump s.shared (.reading id change) ()).1,
          s.procs.set i (planeNext codec dump s.shared (.reading id change) ()).2⟩
        rw [planeNext]
        cases s.shared.registry.get id with
        | none => exact h.idle hi rfl rfl rfl rfl
        | some r => exact h.idle hi rfl rfl rfl rfl
      | storing region =>
        change Mirrored ⟨planeStore s.shared region,s.procs.set i .done⟩
        unfold planeStore
        cases s.shared.registry.get region.regionId with
        | none => exact h.idle hi rfl rfl rfl rfl
        | some r => exact h.idle hi rfl rfl rfl rfl
      | done => exact h.idle hi rfl rfl rfl rfl

theorem recorded_step (h : Recorded codec dump s.shared)
    (e : PoolEvent (StoreEvent V) PlaneRequest Unit) :
    Recorded codec dump (Pool.step (globalControlPlane codec dump) s e).shared := by
  cases e with
  | outside e => exact h.outside e
  | start request => exact h
  | advance i input =>
    cases hi : s.procs[i]? with
    | none =>
      rw [Pool.step_advance_none hi]
      exact h
    | some t =>
      rw [Pool.step_advance hi]
      exact h.next t

theorem recorded_empty : Recorded codec dump {} := ⟨fun _ => Iff.rfl,fun _ => rfl⟩

theorem mirrored_empty : Mirrored ⟨{},[]⟩ where
  alone := List.nodup_nil
  pending _ hw := absurd hw List.not_mem_nil
  settled _ _ := rfl

/-- A region that no call is under way for is settled. -/
theorem Mirrored.written_eq (h : s.Mirrored) {id : String} (hid : id ∉ s.underWay) :
    RegionWrite.about id s.shared.written = RegionWrite.about id s.shared.published := by
  refine h.settled id ?_
  rintro w hw rfl
  exact hid (List.mem_filterMap.mpr ⟨_,hw,rfl⟩)

end GlobalControlPlane

open GlobalControlPlane

def shownAs (region : RegionRecord) : Json := .str region.regionId

def oneRegistration : List (PoolEvent (StoreEvent Json) PlaneRequest Unit) :=
  [.outside (.clock 5),.start (.register { regionId := "eu" }),.advance 0 (),.advance 0 ()]

theorem starts_oneRegistration :
    Along (Pool.step (globalControlPlane jsonCodec shownAs)) Starts ⟨{},[]⟩ oneRegistration :=
  ⟨trivial,fun _ _ => List.not_mem_nil,trivial,trivial,trivial⟩

/-- A removal that runs while a registration is under way leaves a region in the global state that
the registry does not have. -/
example :
    let s := reach jsonCodec shownAs [.start (.register { regionId := "eu" }),
      .start (.remove "eu"),.advance 0 (),.advance 1 (),.advance 1 (),.advance 0 ()]
    s.shared.registry.get "eu" = none ∧
      (s.shared.state.get jsonCodec "regions" "eu").isSome ∧ s.underWay = [] := by
  decide +kernel

end Arsonist.GlobalControl
