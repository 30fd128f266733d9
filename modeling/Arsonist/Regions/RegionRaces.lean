import Arsonist.Regions.ReadableRows

/-! A heartbeat and a change of the status of one region at the same time. Each of them reads the
whole row and writes the whole row, and the other may come in between. -/
namespace Arsonist.Regions
open Arsonist.Library

inductive Caller
  | heartbeat
  | updateStatus
  deriving DecidableEq

/-- What the two calls are given, and the times at which they write. -/
structure Calls (J : Type*) where
  id : String
  updates : Updates J
  beatAt : ℚ
  status : RegionStatus
  changedAt : ℚ

/-- What a call has read, and what it has returned. -/
structure Progress (J : Type*) where
  region : Option (Except Unit (Option (Members J))) := none
  reply : Option (Except Unit (Option (Members J))) := none

structure Race (J : Type*) where
  reg : RegionRows J
  heartbeat : Progress J := {}
  updateStatus : Progress J := {}

/-- An order of the steps of the two calls, each of which reads and writes. -/
abbrev Order := {order : List Caller //
  order.count .heartbeat = 2 ∧ order.count .updateStatus = 2}

/-- The field of the status. -/
def statusField : ModelField :=
  ⟨"status",.status,some (.str (StrEnum.value RegionStatus.active))⟩

namespace Calls
variable {J : Type*} (p : Pydantic J) (calls : Calls J)

/-- The next step of a caller. -/
def turn (s : Race J) : Caller → Race J
  | .heartbeat =>
    match s.heartbeat.region with
    | none => { s with heartbeat := { region := some (s.reg.get p calls.id) } }
    | some region =>
      let done := s.reg.heartbeatWrite p calls.beatAt calls.id calls.updates.1 region
      { s with reg := done.1, heartbeat := { region := some region, reply := some done.2 } }
  | .updateStatus =>
    match s.updateStatus.region with
    | none => { s with updateStatus := { region := some (s.reg.get p calls.id) } }
    | some region =>
      let done := s.reg.updateStatusWrite p calls.changedAt calls.id calls.status region
      { s with reg := done.1, updateStatus := { region := some region, reply := some done.2 } }

/-- The status that is to be written, as a row has it. -/
def newStatus : J := p.ofJson (.str (StrEnum.value calls.status))

/-- The row has both changes. Of a field that both calls change, it has the value of the last one:
the status if the updates set it, and the time of the update. -/
structure Contains (last : Option Caller) (payload : Members J) : Prop where
  status : (last = some .heartbeat → RegionRows.given p calls.updates.1 "status" = none) →
    p.fieldOf payload statusField = some (calls.newStatus p)
  updates : ∀ f ∈ regionFields,
    (last = some .updateStatus → f.name ≠ "status" ∧ f.name ≠ "updated_at") →
      ∀ v, RegionRows.given p calls.updates.1 f.name = some v →
        p.fieldOf payload f = p.read f.type v

/-- If both calls return a region, the row that is stored at the end has both changes. -/
def KeepsBoth (reg : RegionRows J) (order : List Caller) : Prop :=
  ∀ beaten changed,
    (run (calls.turn p) { reg := reg } order).heartbeat.reply = some (.ok (some beaten)) →
    (run (calls.turn p) { reg := reg } order).updateStatus.reply = some (.ok (some changed)) →
    ∃ row, (run (calls.turn p) { reg := reg } order).reg.rows.get? calls.id = some row ∧
      calls.Contains p order.getLast? row.payload

/-- A heartbeat that has read this record raises, sets the status itself, or leaves the one that is
to be written. -/
def LeavesStatus (record : Members J) : Prop :=
  RegionRows.Raises p calls.beatAt calls.updates.1 record ∨
    (RegionRows.given p calls.updates.1 "status").isSome = true ∨
    (if (calls.updates.1.lookup "__dict__").isSome then
      some (p.ofJson (.str (StrEnum.value RegionStatus.active)))
    else record.lookup "status") = some (calls.newStatus p)

/-- A heartbeat that has read this record raises, or sets nothing but what the record has. -/
def SetsNothing (record : Members J) : Prop :=
  RegionRows.Raises p calls.beatAt calls.updates.1 record ∨
    ∀ f ∈ regionFields, f.name ≠ "status" → f.name ≠ "updated_at" →
      ∀ v, RegionRows.given p calls.updates.1 f.name = some v →
        p.read f.type v = record.lookup f.name

/-- What it takes for both changes to be kept, by the order of the steps: the call that writes last
must have read what the other one wrote, or write the same. -/
def Safe (record : Members J) : List Caller → Prop
  | .heartbeat :: .heartbeat :: _ => True
  | .updateStatus :: .updateStatus :: _ =>
    calls.LeavesStatus p (RegionRows.withStatus p calls.changedAt calls.status record)
  | order =>
    if order.getLast? = some .heartbeat then calls.LeavesStatus p record
    else calls.SetsNothing p record

end Calls

/-- Two steps of each caller can be taken in six orders. -/
theorem Order.cases (order : Order) :
    order.1 = [.heartbeat,.heartbeat,.updateStatus,.updateStatus] ∨
    order.1 = [.updateStatus,.updateStatus,.heartbeat,.heartbeat] ∨
    (order.1 = [.updateStatus,.heartbeat,.updateStatus,.heartbeat] ∨
      order.1 = [.heartbeat,.updateStatus,.updateStatus,.heartbeat]) ∨
    (order.1 = [.heartbeat,.updateStatus,.heartbeat,.updateStatus] ∨
      order.1 = [.updateStatus,.heartbeat,.heartbeat,.updateStatus]) := by
  obtain ⟨order,hbeat,hstatus⟩ := order
  have hlength : ∀ l : List Caller,
      l.length = l.count .heartbeat+l.count .updateStatus := by
    intro l
    induction l with
    | nil => rfl
    | cons c l ih =>
      rw [List.length_cons, List.count_cons, List.count_cons, ih]
      cases c with
      | heartbeat => simp; omega
      | updateStatus => simp; omega
  have hfour : order.length = 4 := by rw [hlength, hbeat, hstatus]
  obtain ⟨a,b,c,d,rfl⟩ : ∃ a b c d, order = [a,b,c,d] := by
    match order, hfour with
    | [a,b,c,d], _ => exact ⟨a,b,c,d,rfl⟩
  revert hbeat hstatus
  cases a <;> cases b <;> cases c <;> cases d <;> decide

section Names
variable {J : Type*} {p : Pydantic J} {row record : Members J}

theorem map_fst_setMember (record : Members J) (name : String) (v : J) :
    (setMember record name v).map Prod.fst = record.map Prod.fst :=
  map_fst_set record name v

theorem modelDump_of_names (h : record.map Prod.fst = fieldNames) : modelDump record = record := by
  rw [modelDump, List.filter_eq_self]
  intro m hm
  have hmem : m.1 ∈ record.map Prod.fst := List.mem_map_of_mem hm
  rw [h] at hmem
  exact decide_eq_true hmem

/-- A record has the fields, in their order. -/
theorem map_fst_construct (h : p.construct row = some record) :
    record.map Prod.fst = fieldNames :=
  map_fst_mapM_named h

/-- Reading a record again gives the same record. -/
theorem construct_self (hnames : record.map Prod.fst = fieldNames) (h : p.Canonical record) :
    p.construct record = some record := by
  obtain ⟨record',hrecord,hlookup⟩ := h.construct
  rw [hrecord]
  congr 1
  have hn : (record.map Prod.fst).Nodup := hnames ▸ fieldNames_nodup
  refine eq_of_lookup hn ((map_fst_construct hrecord).trans hnames.symm) fun name hname => ?_
  rw [hnames] at hname
  obtain ⟨f,hf,rfl⟩ := List.mem_map.mp hname
  exact hlookup f hf

end Names

namespace RegionRows
variable {J : Type*} {p : Pydantic J} {reg : RegionRows J} {id : String} {row record : Members J}

theorem canonical_withStatus (h : p.Canonical record) (now : ℚ) (status : RegionStatus) :
    p.Canonical (setMember (setMember record "status" (p.ofJson (.str (StrEnum.value status))))
      "updated_at" (p.ofJson (.float now))) :=
  canonical_setTime (canonical_setStatus h status) now (Or.inr (Or.inr rfl))

/-- What a change of the status writes is read as it is. -/
theorem construct_withStatus (h : p.construct row = some record) (now : ℚ)
    (status : RegionStatus) :
    p.construct (withStatus p now status record) = some (withStatus p now status record) := by
  have hnames : (setMember (setMember record "status" (p.ofJson (.str (StrEnum.value status))))
      "updated_at" (p.ofJson (.float now))).map Prod.fst = fieldNames := by
    rw [map_fst_setMember, map_fst_setMember, map_fst_construct h]
  rw [withStatus, modelDump_of_names hnames]
  exact construct_self hnames
    (canonical_withStatus (Pydantic.canonical_construct h) now status)

/-- A region that is read is there. -/
theorem get_eq_some (h : reg.get p id = .ok (some record)) :
    ∃ row, reg.rows.get? id = some row ∧ p.construct row.payload = some record := by
  unfold get at h
  cases hrow : reg.rows.get? id with
  | none =>
    rw [hrow] at h
    cases h
  | some row =>
    rw [hrow] at h
    dsimp only at h
    cases hrecord : p.construct row.payload with
    | none =>
      rw [hrecord] at h
      cases h
    | some record' =>
      rw [hrecord] at h
      obtain rfl := Option.some.inj (Except.ok.inj h)
      exact ⟨row,rfl,hrecord⟩

/-- A row that is there has what is written. -/
theorem payload_of_write (h : (reg.rows.get? id).isSome = true) (now : ℚ)
    (payload : Members J) :
    ∃ row, (reg.write now id payload).rows.get? id = some row ∧ row.payload = payload := by
  obtain ⟨row,hrow⟩ := Option.isSome_iff_exists.mp h
  refine ⟨{ row with payload := payload, updatedAt := now },?_,rfl⟩
  rw [get?_write, if_pos rfl, hrow]
  rfl

/-- A heartbeat that returns a region has written what the updates leave. -/
theorem heartbeatWrite_eq_ok {now : ℚ} {updates : Updates J}
    {region : Except Unit (Option (Members J))} {beaten : Members J}
    (h : (reg.heartbeatWrite p now id updates.1 region).2 = .ok (some beaten)) :
    ∃ record, region = .ok (some record) ∧ ¬Raises p now updates.1 record ∧
      (reg.heartbeatWrite p now id updates.1 region).1 = reg.write now id beaten ∧
      ∀ f ∈ fieldNames, beaten.lookup f = left p (stamped p now record) updates.1 f := by
  match region, h with
  | .ok (some record), h =>
    refine ⟨record,rfl,?_⟩
    unfold heartbeatWrite at h ⊢
    dsimp only at h ⊢
    obtain ⟨-,hbeat⟩ | ⟨hraises,payload,hbeat,hpayload⟩ := beat_cases now updates record
    · rw [hbeat] at h
      cases h
    · rw [hbeat] at h ⊢
      obtain rfl := Option.some.inj (Except.ok.inj h)
      exact ⟨hraises,rfl,hpayload⟩

/-- A heartbeat that does not raise returns a region. -/
theorem exists_heartbeatWrite (reg : RegionRows J) (id : String) {now : ℚ} {updates : Updates J}
    (h : ¬Raises p now updates.1 record) : ∃ beaten,
      (reg.heartbeatWrite p now id updates.1 (.ok (some record))).2 = .ok (some beaten) := by
  unfold heartbeatWrite
  dsimp only
  obtain ⟨hraises,-⟩ | ⟨-,payload,hbeat,-⟩ := beat_cases now updates record
  · exact absurd hraises h
  · rw [hbeat]
    exact ⟨payload,rfl⟩

/-- A change of the status that returns a region has written it. -/
theorem updateStatusWrite_eq_ok {now : ℚ} {status : RegionStatus}
    {region : Except Unit (Option (Members J))} {changed : Members J}
    (h : (reg.updateStatusWrite p now id status region).2 = .ok (some changed)) :
    ∃ record, region = .ok (some record) ∧ changed = withStatus p now status record ∧
      (reg.updateStatusWrite p now id status region).1 = reg.write now id changed := by
  match region, h with
  | .ok (some record), h =>
    obtain rfl := Option.some.inj (Except.ok.inj h)
    exact ⟨record,rfl,rfl,rfl⟩

end RegionRows

theorem statusField_mem : statusField ∈ regionFields := by
  unfold regionFields statusField
  simp

namespace Calls
open RegionRows
variable {J : Type*} {p : Pydantic J} {calls : Calls J} {reg : RegionRows J}
  {row record beaten : Members J}

/-- How the status is read that a change of the status has written. -/
theorem fieldOf_status (h : p.Canonical record) :
    p.fieldOf (withStatus p calls.changedAt calls.status record) statusField =
      some (calls.newStatus p) := by
  obtain ⟨x,hx,-⟩ := h statusField statusField_mem
  have hname : statusField.name = "status" := rfl
  rw [Pydantic.fieldOf, withStatus, lookup_modelDump _ (name_mem statusField_mem),
    lookup_setMember, if_neg (by decide), lookup_setMember,
    if_pos hname, hx]
  exact p.read_status calls.status

/-- A change of the status leaves the other fields alone. -/
theorem fieldOf_other (h : p.Canonical record) {f : ModelField} (hf : f ∈ regionFields)
    (hstatus : f.name ≠ "status") (hupdated : f.name ≠ "updated_at") :
    p.fieldOf (withStatus p calls.changedAt calls.status record) f = record.lookup f.name := by
  obtain ⟨x,hx,hread⟩ := h f hf
  rw [Pydantic.fieldOf, withStatus, lookup_modelDump _ (name_mem hf), lookup_setMember,
    if_neg hupdated, lookup_setMember, if_neg hstatus, hx]
  exact hread

/-- One call after the other is safe, if the updates leave `__dict__` alone. -/
theorem safe_of_sequential (h : p.Canonical record)
    (hdict : calls.updates.1.lookup "__dict__" = none) (c : Caller) (rest : List Caller) :
    calls.Safe p record (c :: c :: rest) := by
  cases c with
  | heartbeat => trivial
  | updateStatus =>
    obtain ⟨x,hx,-⟩ := h statusField statusField_mem
    have hname : statusField.name = "status" := rfl
    have hnone : ¬(none : Option J).isSome = true := nofun
    refine Or.inr (Or.inr ?_)
    rw [hdict, if_neg hnone, withStatus, ← hname, lookup_modelDump _ (name_mem statusField_mem),
      lookup_setMember, if_neg (by decide), lookup_setMember, if_pos rfl, hx]
    rfl

/-- A heartbeat that writes last keeps both changes if it leaves the status that it should. -/
theorem contains_heartbeat_iff (hrecord : p.Canonical record)
    (hraises : ¬Raises p calls.beatAt calls.updates.1 record)
    (hbeaten : ∀ f ∈ fieldNames,
      beaten.lookup f = left p (stamped p calls.beatAt record) calls.updates.1 f) :
    calls.Contains p (some .heartbeat) beaten ↔ calls.LeavesStatus p record := by
  have hfield : ∀ f ∈ regionFields, p.fieldOf beaten f = _ := fun _ hf =>
    fieldOf_left (canonical_stamped hrecord calls.beatAt) hbeaten hf
  have hstatus : given p calls.updates.1 "status" = none → p.fieldOf beaten statusField =
      if (calls.updates.1.lookup "__dict__").isSome then
        some (p.ofJson (.str (StrEnum.value RegionStatus.active)))
      else record.lookup "status" := by
    intro hgiven
    have hname : given p calls.updates.1 statusField.name = none := hgiven
    rw [hfield statusField statusField_mem, hname,
      ← lookup_stamped calls.beatAt record (by decide) (by decide)]
    rfl
  constructor
  · intro h
    cases hgiven : given p calls.updates.1 "status" with
    | some v => exact Or.inr (Or.inl (by rw [hgiven]; rfl))
    | none => exact Or.inr (Or.inr ((hstatus hgiven).symm.trans (h.status fun _ => hgiven)))
  · intro h
    refine ⟨fun hnone => ?_,fun f hf _ v hv => ?_⟩
    · have hgiven := hnone rfl
      obtain hr | hsome | hkept := h
      · exact absurd hr hraises
      · rw [hgiven] at hsome
        cases hsome
      · rw [hstatus hgiven, hkept]
    · rw [hfield f hf, hv]

/-- A change of the status that is written last keeps what it has read. -/
theorem contains_status_iff (h : p.Canonical record) :
    calls.Contains p (some .updateStatus) (withStatus p calls.changedAt calls.status record) ↔
      ∀ f ∈ regionFields, f.name ≠ "status" → f.name ≠ "updated_at" →
        ∀ v, given p calls.updates.1 f.name = some v → p.read f.type v = record.lookup f.name := by
  constructor
  · intro hboth f hf hstatus hupdated v hv
    rw [← hboth.updates f hf (fun _ => ⟨hstatus,hupdated⟩) v hv,
      fieldOf_other h hf hstatus hupdated]
  · intro hall
    refine ⟨fun _ => fieldOf_status h,fun f hf hother v hv => ?_⟩
    obtain ⟨hstatus,hupdated⟩ := hother rfl
    rw [fieldOf_other h hf hstatus hupdated, hall f hf hstatus hupdated v hv]

/-- What is stored when a heartbeat writes last. -/
theorem stored_heartbeat_iff (hcanonical : p.Canonical record)
    (hrow : (reg.rows.get? calls.id).isSome = true)
    (h : (reg.heartbeatWrite p calls.beatAt calls.id calls.updates.1 (.ok (some record))).2 =
      .ok (some beaten)) :
    (∃ row, (reg.heartbeatWrite p calls.beatAt calls.id calls.updates.1
        (.ok (some record))).1.rows.get? calls.id = some row ∧
      calls.Contains p (some .heartbeat) row.payload) ↔ calls.LeavesStatus p record := by
  obtain ⟨record',hrecord,hraises,hwrite,hbeaten⟩ := heartbeatWrite_eq_ok h
  obtain rfl := Option.some.inj (Except.ok.inj hrecord)
  obtain ⟨row,hget,hpayload⟩ := payload_of_write hrow calls.beatAt beaten
  rw [hwrite, hget, ← contains_heartbeat_iff hcanonical hraises hbeaten, ← hpayload]
  constructor
  · rintro ⟨row',hrow',hboth⟩
    exact Option.some.inj hrow' ▸ hboth
  · exact fun hboth => ⟨row,rfl,hboth⟩

/-- The heartbeat writes last, with what it has read, and the change of the status has returned. -/
theorem heartbeatLast_iff (hcanonical : p.Canonical record)
    (hrow : (reg.rows.get? calls.id).isSome = true) (returned : Members J) :
    (∀ beaten changed : Members J,
      some (reg.heartbeatWrite p calls.beatAt calls.id calls.updates.1 (.ok (some record))).2 =
        some (.ok (some beaten)) →
      some (.ok (some returned)) = (some (.ok (some changed)) :
        Option (Except Unit (Option (Members J)))) →
      ∃ row, (reg.heartbeatWrite p calls.beatAt calls.id calls.updates.1
          (.ok (some record))).1.rows.get? calls.id = some row ∧
        calls.Contains p (some .heartbeat) row.payload) ↔ calls.LeavesStatus p record := by
  constructor
  · intro h
    by_cases hraises : Raises p calls.beatAt calls.updates.1 record
    · exact Or.inl hraises
    · obtain ⟨beaten,hbeaten⟩ := exists_heartbeatWrite reg calls.id hraises
      exact (stored_heartbeat_iff hcanonical hrow hbeaten).mp
        (h beaten returned (congrArg some hbeaten) rfl)
  · intro h beaten _ hbeat _
    exact (stored_heartbeat_iff hcanonical hrow (Option.some.inj hbeat)).mpr h

/-- What is stored when a change of the status is written last. -/
theorem stored_status_iff (hcanonical : p.Canonical record)
    (hrow : (reg.rows.get? calls.id).isSome = true) :
    (∃ row, (reg.updateStatusWrite p calls.changedAt calls.id calls.status
        (.ok (some record))).1.rows.get? calls.id = some row ∧
      calls.Contains p (some .updateStatus) row.payload) ↔
      ∀ f ∈ regionFields, f.name ≠ "status" → f.name ≠ "updated_at" →
        ∀ v, given p calls.updates.1 f.name = some v → p.read f.type v = record.lookup f.name := by
  obtain ⟨row,hget,hpayload⟩ :=
    payload_of_write hrow calls.changedAt (withStatus p calls.changedAt calls.status record)
  rw [← contains_status_iff hcanonical, ← hpayload]
  constructor
  · rintro ⟨row',hrow',hboth⟩
    exact Option.some.inj (hget.symm.trans hrow') ▸ hboth
  · exact fun hboth => ⟨row,hget,hboth⟩

/-- The heartbeat comes first: the change of the status reads what it has written. -/
theorem keepsBoth_heartbeatFirst (hrecord : reg.get p calls.id = .ok (some record)) :
    calls.KeepsBoth p reg [.heartbeat,.heartbeat,.updateStatus,.updateStatus] := by
  obtain ⟨row,hrow,hconstruct⟩ := get_eq_some hrecord
  have hkeeps : calls.KeepsBoth p reg [.heartbeat,.heartbeat,.updateStatus,.updateStatus] ↔
      ∀ beaten changed,
        some (reg.heartbeatWrite p calls.beatAt calls.id calls.updates.1
          (reg.get p calls.id)).2 = some (.ok (some beaten)) →
        some ((reg.heartbeatWrite p calls.beatAt calls.id calls.updates.1
          (reg.get p calls.id)).1.updateStatus p calls.changedAt calls.id calls.status).2 =
            some (.ok (some changed)) →
        ∃ row, ((reg.heartbeatWrite p calls.beatAt calls.id calls.updates.1
          (reg.get p calls.id)).1.updateStatus p calls.changedAt calls.id
            calls.status).1.rows.get? calls.id = some row ∧
          calls.Contains p (some .updateStatus) row.payload := Iff.rfl
  rw [hkeeps, hrecord]
  intro beaten changed hbeat hchanged
  obtain ⟨record₁,hrecord₁,-,hwrite,hbeaten⟩ := heartbeatWrite_eq_ok (Option.some.inj hbeat)
  obtain rfl := Option.some.inj (Except.ok.inj hrecord₁)
  rw [hwrite, updateStatus] at hchanged ⊢
  obtain ⟨record',hrecord',-,-⟩ := updateStatusWrite_eq_ok (Option.some.inj hchanged)
  obtain ⟨row',hrow',hconstruct'⟩ := get_eq_some hrecord'
  have hpayload : row'.payload = beaten := by
    obtain ⟨written,hwritten,hpayload⟩ :=
      payload_of_write (Option.isSome_iff_exists.mpr ⟨row,hrow⟩) calls.beatAt beaten
    exact Option.some.inj (hwritten.symm.trans hrow') ▸ hpayload
  rw [hrecord']
  refine (stored_status_iff (Pydantic.canonical_construct hconstruct')
    (Option.isSome_iff_exists.mpr ⟨row',hrow'⟩)).mpr fun f hf _ _ v hv => ?_
  have hstamped := canonical_stamped (Pydantic.canonical_construct hconstruct) calls.beatAt
  rw [Pydantic.lookup_construct hconstruct' hf, hpayload, fieldOf_left hstamped hbeaten hf, hv]

/-- The change of the status comes first: the heartbeat reads what it has written. -/
theorem keepsBoth_statusFirst_iff (hrecord : reg.get p calls.id = .ok (some record)) :
    calls.KeepsBoth p reg [.updateStatus,.updateStatus,.heartbeat,.heartbeat] ↔
      calls.LeavesStatus p (withStatus p calls.changedAt calls.status record) := by
  obtain ⟨row,hrow,hconstruct⟩ := get_eq_some hrecord
  have hkeeps : calls.KeepsBoth p reg [.updateStatus,.updateStatus,.heartbeat,.heartbeat] ↔
      ∀ beaten changed,
        some ((reg.updateStatusWrite p calls.changedAt calls.id calls.status
          (reg.get p calls.id)).1.heartbeat p calls.beatAt calls.id calls.updates.1).2 =
            some (.ok (some beaten)) →
        some (reg.updateStatusWrite p calls.changedAt calls.id calls.status
          (reg.get p calls.id)).2 = some (.ok (some changed)) →
        ∃ row, ((reg.updateStatusWrite p calls.changedAt calls.id calls.status
          (reg.get p calls.id)).1.heartbeat p calls.beatAt calls.id
            calls.updates.1).1.rows.get? calls.id = some row ∧
          calls.Contains p (some .heartbeat) row.payload := Iff.rfl
  obtain ⟨row',hrow',hpayload⟩ := payload_of_write (Option.isSome_iff_exists.mpr ⟨row,hrow⟩)
    calls.changedAt (withStatus p calls.changedAt calls.status record)
  have hwritten := construct_withStatus hconstruct calls.changedAt calls.status
  have hget : (reg.write calls.changedAt calls.id
      (withStatus p calls.changedAt calls.status record)).get p calls.id =
        .ok (some (withStatus p calls.changedAt calls.status record)) := by
    rw [RegionRows.get, hrow']
    dsimp only
    rw [hpayload, hwritten]
  rw [hkeeps, hrecord]
  dsimp only [updateStatusWrite, heartbeat]
  rw [hget]
  exact heartbeatLast_iff (Pydantic.canonical_construct hwritten)
    (Option.isSome_iff_exists.mpr ⟨row',hrow'⟩) _

/-- The status is changed between the halves of the heartbeat. -/
theorem keepsBoth_heartbeatLast_iff (hrecord : reg.get p calls.id = .ok (some record))
    {order : List Caller} (horder : order = [.updateStatus,.heartbeat,.updateStatus,.heartbeat] ∨
      order = [.heartbeat,.updateStatus,.updateStatus,.heartbeat]) :
    calls.KeepsBoth p reg order ↔ calls.LeavesStatus p record := by
  obtain ⟨row,hrow,hconstruct⟩ := get_eq_some hrecord
  have hkeeps : calls.KeepsBoth p reg order ↔ ∀ beaten changed,
      some ((reg.updateStatusWrite p calls.changedAt calls.id calls.status
        (reg.get p calls.id)).1.heartbeatWrite p calls.beatAt calls.id calls.updates.1
          (reg.get p calls.id)).2 = some (.ok (some beaten)) →
      some (reg.updateStatusWrite p calls.changedAt calls.id calls.status
        (reg.get p calls.id)).2 = some (.ok (some changed)) →
      ∃ row, ((reg.updateStatusWrite p calls.changedAt calls.id calls.status
        (reg.get p calls.id)).1.heartbeatWrite p calls.beatAt calls.id calls.updates.1
          (reg.get p calls.id)).1.rows.get? calls.id = some row ∧
        calls.Contains p (some .heartbeat) row.payload := by
    obtain rfl | rfl := horder
    · exact Iff.rfl
    · exact Iff.rfl
  obtain ⟨row',hrow',-⟩ := payload_of_write (Option.isSome_iff_exists.mpr ⟨row,hrow⟩)
    calls.changedAt (withStatus p calls.changedAt calls.status record)
  rw [hkeeps, hrecord]
  exact heartbeatLast_iff (Pydantic.canonical_construct hconstruct)
    (Option.isSome_iff_exists.mpr ⟨row',hrow'⟩) _

/-- The heartbeat lies between the halves of the change of the status. -/
theorem keepsBoth_statusLast_iff (hrecord : reg.get p calls.id = .ok (some record))
    {order : List Caller} (horder : order = [.heartbeat,.updateStatus,.heartbeat,.updateStatus] ∨
      order = [.updateStatus,.heartbeat,.heartbeat,.updateStatus]) :
    calls.KeepsBoth p reg order ↔ calls.SetsNothing p record := by
  obtain ⟨row,hrow,hconstruct⟩ := get_eq_some hrecord
  have hkeeps : calls.KeepsBoth p reg order ↔ ∀ beaten changed,
      some (reg.heartbeatWrite p calls.beatAt calls.id calls.updates.1
        (reg.get p calls.id)).2 = some (.ok (some beaten)) →
      some ((reg.heartbeatWrite p calls.beatAt calls.id calls.updates.1
        (reg.get p calls.id)).1.updateStatusWrite p calls.changedAt calls.id calls.status
          (reg.get p calls.id)).2 = some (.ok (some changed)) →
      ∃ row, ((reg.heartbeatWrite p calls.beatAt calls.id calls.updates.1
        (reg.get p calls.id)).1.updateStatusWrite p calls.changedAt calls.id calls.status
          (reg.get p calls.id)).1.rows.get? calls.id = some row ∧
        calls.Contains p (some .updateStatus) row.payload := by
    obtain rfl | rfl := horder
    · exact Iff.rfl
    · exact Iff.rfl
  rw [hkeeps, hrecord]
  have hcanonical : p.Canonical record := Pydantic.canonical_construct hconstruct
  have hpresent : ∀ beaten, (reg.heartbeatWrite p calls.beatAt calls.id calls.updates.1
      (.ok (some record))).2 = .ok (some beaten) → ((reg.heartbeatWrite p calls.beatAt calls.id
        calls.updates.1 (.ok (some record))).1.rows.get? calls.id).isSome = true := by
    intro beaten hbeaten
    obtain ⟨-,-,-,hwrite,-⟩ := heartbeatWrite_eq_ok hbeaten
    obtain ⟨row',hrow',-⟩ :=
      payload_of_write (Option.isSome_iff_exists.mpr ⟨row,hrow⟩) calls.beatAt beaten
    rw [hwrite, hrow']
    rfl
  constructor
  · intro h
    by_cases hraises : Raises p calls.beatAt calls.updates.1 record
    · exact Or.inl hraises
    · obtain ⟨beaten,hbeaten⟩ := exists_heartbeatWrite reg calls.id hraises
      exact Or.inr ((stored_status_iff hcanonical (hpresent beaten hbeaten)).mp
        (h beaten _ (congrArg some hbeaten) rfl))
  · intro h beaten changed hbeat _
    obtain ⟨record',hrecord',hraises,-,-⟩ := heartbeatWrite_eq_ok (Option.some.inj hbeat)
    obtain rfl := Option.some.inj (Except.ok.inj hrecord')
    exact (stored_status_iff hcanonical (hpresent beaten (Option.some.inj hbeat))).mpr
      (h.resolve_left hraises)

/-- Calls that return a region have read one. -/
theorem exists_record_of_replies (order : Order) {beaten changed : Members J}
    (hbeat : (run (calls.turn p) { reg := reg } order.1).heartbeat.reply =
      some (.ok (some beaten)))
    (hchanged : (run (calls.turn p) { reg := reg } order.1).updateStatus.reply =
      some (.ok (some changed))) : ∃ record, reg.get p calls.id = .ok (some record) := by
  obtain horder | horder | (horder | horder) | (horder | horder) := order.cases
  · rw [horder] at hbeat
    obtain ⟨record,hrecord,-⟩ := heartbeatWrite_eq_ok (Option.some.inj hbeat)
    exact ⟨record,hrecord⟩
  · rw [horder] at hchanged
    obtain ⟨record,hrecord,-⟩ := updateStatusWrite_eq_ok (Option.some.inj hchanged)
    exact ⟨record,hrecord⟩
  all_goals
    rw [horder] at hbeat
    obtain ⟨record,hrecord,-⟩ := heartbeatWrite_eq_ok (Option.some.inj hbeat)
    exact ⟨record,hrecord⟩

/-- Both changes are kept exactly when the order of the steps is safe for the record that is there
at first. -/
theorem keepsBoth_iff (calls : Calls J) (reg : RegionRows J) (order : Order) :
    calls.KeepsBoth p reg order.1 ↔
      ∀ record, reg.get p calls.id = .ok (some record) → calls.Safe p record order.1 := by
  have hread : (∀ record, reg.get p calls.id = .ok (some record) →
      (calls.KeepsBoth p reg order.1 ↔ calls.Safe p record order.1)) := by
    intro record hrecord
    obtain horder | horder | horder | horder := order.cases
    · rw [horder]
      exact iff_of_true (keepsBoth_heartbeatFirst hrecord) trivial
    · rw [horder]
      exact keepsBoth_statusFirst_iff hrecord
    · rw [keepsBoth_heartbeatLast_iff hrecord horder]
      obtain horder | horder := horder
      · rw [horder]
        rfl
      · rw [horder]
        rfl
    · rw [keepsBoth_statusLast_iff hrecord horder]
      obtain horder | horder := horder
      · rw [horder]
        rfl
      · rw [horder]
        rfl
  constructor
  · exact fun h record hrecord => (hread record hrecord).mp h
  · intro h beaten changed hbeat hchanged
    obtain ⟨record,hrecord⟩ := exists_record_of_replies order hbeat hchanged
    exact (hread record hrecord).mpr (h record hrecord) beaten changed hbeat hchanged

/-- A region is set offline while a heartbeat reports its capacity. -/
def offlineRace : Calls Json where
  id := "eu"
  updates := ⟨[("capacity",.float 2)],by decide⟩
  beatAt := 2
  status := .offline
  changedAt := 3

theorem not_keepsBoth :
    ¬∀ (calls : Calls Json) (reg : RegionRows Json) (order : Order),
      calls.KeepsBoth strictPydantic reg order.1 := by
  intro h
  obtain ⟨row,hrow,hboth⟩ := h offlineRace (({} : RegionRows Json).register strictPydantic 1
    euRegion) ⟨[.heartbeat,.updateStatus,.updateStatus,.heartbeat],by decide⟩ _ _ rfl rfl
  obtain rfl := Option.some.inj hrow
  have hstatus := hboth.status fun _ => rfl
  have hoffline : some (Json.str "active") = some (Json.str "offline") := hstatus
  injection hoffline with hoffline
  injection hoffline with hoffline
  exact absurd hoffline (by decide)

end Calls

end Arsonist.Regions
