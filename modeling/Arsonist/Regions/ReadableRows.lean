import Arsonist.Library.Runs
import Arsonist.Regions.RegionRows

/-! Whether every stored row can be read: a row that is written by a heartbeat is read again only
if the updates left values that the fields accept. -/
namespace Arsonist.Regions
open Arsonist.Library

namespace RegionRows
variable {J : Type*} (p : Pydantic J)

/-- The updates that come behind the one that replaces all attributes. -/
def behind (updates : Members J) : Members J :=
  (updates.dropWhile fun m => m.1 ≠ "__dict__").tail

/-- What some updates give to a field: a value of its own, or one from a new `__dict__`, which the
updates behind it may change where it has the field. -/
def given (updates : Members J) (f : String) : Option J :=
  match updates.lookup "__dict__" with
  | none => updates.lookup f
  | some v =>
    (p.asObject v).bind fun o => (o.lookup f).map fun x => ((behind updates).lookup f).getD x

/-- What a field has after the updates. Without a new `__dict__` it may still have its old value. -/
def left (record updates : Members J) (f : String) : Option J :=
  match updates.lookup "__dict__" with
  | none => (record.lookup f).map fun x => (updates.lookup f).getD x
  | some _ => given p updates f

variable {p}

/-- Updates without a new `__dict__` change the fields that they name. -/
theorem foldlM_assign_fields {updates : Members J} (hn : (updates.map Prod.fst).Nodup)
    (hdict : "__dict__" ∉ updates.map Prod.fst) (record : Members J) :
    ∃ r, updates.foldlM (assign p) record = some r ∧
      ∀ f ∈ fieldNames, r.lookup f = (record.lookup f).map fun x => (updates.lookup f).getD x := by
  induction updates generalizing record with
  | nil => exact ⟨record,rfl,fun f _ => by simp⟩
  | cons m updates ih =>
    obtain ⟨k,v⟩ := m
    rw [List.map_cons, List.nodup_cons] at hn
    rw [List.map_cons, List.mem_cons, not_or] at hdict
    have hk : k ≠ "__dict__" := Ne.symm hdict.1
    rw [List.foldlM_cons, assign, if_neg hk]
    by_cases hfield : k ∈ fieldNames
    · rw [if_pos hfield]
      obtain ⟨r,hr,hlookup⟩ := ih hn.2 hdict.2 (setMember record k v)
      refine ⟨r,hr,fun f hf => ?_⟩
      rw [hlookup f hf, lookup_setMember, List.lookup_cons]
      by_cases hfk : f = k
      · have hnone : updates.lookup f = none := lookup_eq_none_iff.mpr (hfk ▸ hn.1)
        rw [if_pos hfk, hnone, hfk, beq_self_eq_true]
        cases record.lookup k with
        | none => rfl
        | some x => rfl
      · have hne : (f == k) = false := beq_eq_false_iff_ne.mpr hfk
        rw [if_neg hfk, hne]
    · rw [if_neg hfield]
      obtain ⟨r,hr,hlookup⟩ := ih hn.2 hdict.2 record
      refine ⟨r,hr,fun f hf => ?_⟩
      have hne : (f == k) = false := beq_eq_false_iff_ne.mpr fun he => hfield (he ▸ hf)
      rw [hlookup f hf, List.lookup_cons, hne]

/-- The assignments of a heartbeat fail only where `__dict__` is no object, and otherwise they leave
what the updates say. -/
theorem foldlM_assign (updates : Updates J) (record : Members J) :
    (∃ v, updates.1.lookup "__dict__" = some v ∧ p.asObject v = none) ∧
      updates.1.foldlM (assign p) record = none ∨
    (∀ v, updates.1.lookup "__dict__" = some v → p.asObject v ≠ none) ∧
      ∃ r, updates.1.foldlM (assign p) record = some r ∧
        ∀ f ∈ fieldNames, r.lookup f = left p record updates.1 f := by
  obtain ⟨updates,hn⟩ := updates
  dsimp only
  cases hdict : updates.lookup "__dict__" with
  | none =>
    obtain ⟨r,hr,hlookup⟩ :=
      foldlM_assign_fields (p := p) hn (lookup_eq_none_iff.mp hdict) record
    refine Or.inr ⟨nofun,r,hr,fun f hf => ?_⟩
    rw [hlookup f hf, left, hdict]
  | some v =>
    obtain ⟨before,after,rfl,hbefore,hafter⟩ := split_of_lookup hdict
    rw [List.map_append, List.map_cons, List.nodup_append, List.nodup_cons] at hn
    obtain ⟨r₁,hr₁,-⟩ := foldlM_assign_fields (p := p) hn.1 hbefore record
    rw [List.foldlM_append, hr₁]
    dsimp only [Option.bind_eq_bind, Option.bind_some]
    rw [List.foldlM_cons, assign, if_pos rfl]
    cases hobject : p.asObject v with
    | none => exact Or.inl ⟨⟨v,rfl,hobject⟩,rfl⟩
    | some o =>
      obtain ⟨r,hr,hlookup⟩ := foldlM_assign_fields (p := p) hn.2.1.2 hn.2.1.1 o
      refine Or.inr ⟨fun v' hv' => ?_,r,hr,fun f hf => ?_⟩
      · obtain rfl := Option.some.inj hv'
        rw [hobject]
        nofun
      · rw [hlookup f hf, left, given, hdict, behind, hafter]
        dsimp only
        rw [hobject]
        rfl

/-- The heartbeat raises before it writes. -/
def Raises (p : Pydantic J) (now : ℚ) (updates record : Members J) : Prop :=
  p.raises (stamped p now record) updates = true ∨
    ∃ v, updates.lookup "__dict__" = some v ∧ p.asObject v = none

/-- The updates leave a record: what they give to a field is accepted by its type, the id stays
what it is, and a new `__dict__` has one. -/
structure Accepted (p : Pydantic J) (id : String) (updates : Members J) : Prop where
  typed : ∀ f ∈ regionFields, ∀ v, given p updates f.name = some v → (p.read f.type v).isSome = true
  own : ∀ v, given p updates "region_id" = some v → (p.read .str v).bind p.asText = some id
  named : (updates.lookup "__dict__").isSome = true →
    (given p updates "region_id").isSome = true

/-- A heartbeat raises, or it writes what the updates leave. -/
theorem beat_cases (now : ℚ) (updates : Updates J) (record : Members J) :
    Raises p now updates.1 record ∧ beat p now updates.1 record = none ∨
    ¬Raises p now updates.1 record ∧ ∃ payload, beat p now updates.1 record = some payload ∧
      ∀ f ∈ fieldNames, payload.lookup f = left p (stamped p now record) updates.1 f := by
  unfold beat Raises
  by_cases hraises : p.raises (stamped p now record) updates.1 = true
  · exact Or.inl ⟨Or.inl hraises,if_pos hraises⟩
  · rw [if_neg hraises]
    obtain ⟨hdict,hnone⟩ | ⟨hdict,r,hr,hlookup⟩ :=
      foldlM_assign (p := p) updates (stamped p now record)
    · exact Or.inl ⟨Or.inr hdict,by rw [hnone]; rfl⟩
    · refine Or.inr ⟨?_,modelDump r,by rw [hr]; rfl,fun f hf => ?_⟩
      · rintro (h | ⟨v,hv,hobject⟩)
        · exact hraises h
        · exact hdict v hv hobject
      · rw [lookup_modelDump r hf, hlookup f hf]

/-- How the fields of a row are read that a heartbeat has written. -/
theorem fieldOf_left {record payload updates : Members J} (hrecord : p.Canonical record)
    (hpayload : ∀ f ∈ fieldNames, payload.lookup f = left p record updates f) {f : ModelField}
    (hf : f ∈ regionFields) :
    p.fieldOf payload f =
      match given p updates f.name with
      | some v => p.read f.type v
      | none =>
        if (updates.lookup "__dict__").isSome then f.default.map p.ofJson
        else record.lookup f.name := by
  rw [Pydantic.fieldOf, hpayload f.name (name_mem hf), left]
  cases hdict : updates.lookup "__dict__" with
  | some v =>
    dsimp only
    cases given p updates f.name with
    | some x => rfl
    | none => rfl
  | none =>
    obtain ⟨x,hx,hread⟩ := hrecord f hf
    have hgiven : given p updates f.name = updates.lookup f.name := by
      rw [given, hdict]
    rw [hgiven, hx]
    cases updates.lookup f.name with
    | some v => rfl
    | none => exact hread

theorem readsAs_iff {id : String} {payload : Members J} :
    ReadsAs p id payload ↔ (p.construct payload).isSome = true ∧
      (p.fieldOf payload regionIdField).bind p.asText = some id := by
  constructor
  · rintro ⟨record,hrecord,hid⟩
    have hname : record.lookup "region_id" = p.fieldOf payload regionIdField :=
      Pydantic.lookup_construct hrecord regionIdField_mem
    exact ⟨by rw [hrecord]; rfl,hname ▸ hid⟩
  · rintro ⟨hsome,hid⟩
    obtain ⟨record,hrecord⟩ := Option.isSome_iff_exists.mp hsome
    have hname : record.lookup "region_id" = p.fieldOf payload regionIdField :=
      Pydantic.lookup_construct hrecord regionIdField_mem
    exact ⟨record,hrecord,hname ▸ hid⟩

/-- How the id of a row is read that a heartbeat has written. -/
theorem fieldOf_regionId {record payload updates : Members J} (hrecord : p.Canonical record)
    (hpayload : ∀ f ∈ fieldNames, payload.lookup f = left p record updates f) :
    p.fieldOf payload regionIdField =
      match given p updates "region_id" with
      | some v => p.read .str v
      | none =>
        if (updates.lookup "__dict__").isSome then none else record.lookup "region_id" :=
  fieldOf_left hrecord hpayload regionIdField_mem

/-- Updates that leave a record are accepted. -/
theorem accepted_of_readsAs {id : String} {record payload updates : Members J}
    (hrecord : p.Canonical record)
    (hpayload : ∀ f ∈ fieldNames, payload.lookup f = left p record updates f)
    (h : ReadsAs p id payload) : Accepted p id updates := by
  obtain ⟨hsome,hown⟩ := readsAs_iff.mp h
  rw [fieldOf_regionId hrecord hpayload] at hown
  rw [Pydantic.construct_isSome_iff] at hsome
  refine ⟨fun f hf v hv => ?_,fun v hv => ?_,fun hdict => ?_⟩
  · have hfield := hsome f hf
    rw [fieldOf_left hrecord hpayload hf, hv] at hfield
    exact hfield
  · rw [hv] at hown
    exact hown
  · cases hgiven : given p updates "region_id" with
    | some v => rfl
    | none =>
      rw [hgiven] at hown
      dsimp only at hown
      rw [if_pos hdict] at hown
      cases hown

/-- Updates that are accepted leave a record. -/
theorem Accepted.readsAs {id : String} {record payload updates : Members J}
    (h : Accepted p id updates) (hrecord : p.Canonical record)
    (hid : (record.lookup "region_id").bind p.asText = some id)
    (hpayload : ∀ f ∈ fieldNames, payload.lookup f = left p record updates f) :
    ReadsAs p id payload := by
  rw [readsAs_iff, Pydantic.construct_isSome_iff]
  refine ⟨fun f hf => ?_,?_⟩
  · rw [fieldOf_left hrecord hpayload hf]
    cases hgiven : given p updates f.name with
    | some v => exact h.typed f hf v hgiven
    | none =>
      dsimp only
      by_cases hdict : (updates.lookup "__dict__").isSome = true
      · rw [if_pos hdict, Option.isSome_map]
        obtain hdefault | hname := default_isSome f hf
        · exact hdefault
        · have hnamed := h.named hdict
          rw [← hname, hgiven] at hnamed
          cases hnamed
      · rw [if_neg hdict]
        obtain ⟨v,hv,-⟩ := hrecord f hf
        rw [hv]
        rfl
  · rw [fieldOf_regionId hrecord hpayload]
    cases hgiven : given p updates "region_id" with
    | some v => exact h.own v hgiven
    | none =>
      dsimp only
      by_cases hdict : (updates.lookup "__dict__").isSome = true
      · have hnamed := h.named hdict
        rw [hgiven] at hnamed
        cases hnamed
      · rw [if_neg hdict]
        exact hid

end RegionRows

/-- A call of the registry, with the time at which it is made. -/
inductive RegionOp {J : Type*} (p : Pydantic J)
  | register (now : ℚ) (region : ValidRecord p)
  | heartbeat (now : ℚ) (id : String) (updates : Updates J)
  | updateStatus (now : ℚ) (id : String) (status : RegionStatus)
  | remove (id : String)

namespace RegionRows
variable {J : Type*} {p : Pydantic J} {reg : RegionRows J}

def exec (reg : RegionRows J) : RegionOp p → RegionRows J
  | .register now region => reg.register p now region
  | .heartbeat now id updates => (reg.heartbeat p now id updates.1).1
  | .updateStatus now id status => (reg.updateStatus p now id status).1
  | .remove id => reg.remove id

/-- Every row reads as a record with the id of the row. -/
def Readable (p : Pydantic J) (reg : RegionRows J) : Prop :=
  ∀ id row, reg.rows.get? id = some row → ReadsAs p id row.payload

/-- The registry can be read: row by row, one region at a time and as a whole. -/
structure Sound (p : Pydantic J) (reg : RegionRows J) : Prop where
  rows : Readable p reg
  gets : ∀ id, reg.get p id ≠ .error ()
  lists : ∀ status regionType, reg.listRegions p status regionType ≠ none
  actives : reg.activeRegions p ≠ none

/-- The call is no heartbeat that writes updates which are not accepted. -/
def Harmless (reg : RegionRows J) : RegionOp p → Prop
  | .heartbeat now id updates => ∀ record, reg.get p id = .ok (some record) →
      Raises p now updates.1 record ∨ Accepted p id updates.1
  | _ => True

/-- What a region is read from. -/
theorem get_cases (h : Readable p reg) (id : String) :
    reg.get p id = .ok none ∧ reg.rows.get? id = none ∨
    ∃ row record, reg.rows.get? id = some row ∧ reg.get p id = .ok (some record) ∧
      p.construct row.payload = some record ∧
      (record.lookup "region_id").bind p.asText = some id := by
  unfold get
  cases hrow : reg.rows.get? id with
  | none => exact Or.inl ⟨rfl,rfl⟩
  | some row =>
    obtain ⟨record,hrecord,hid⟩ := h id row hrow
    exact Or.inr ⟨row,record,rfl,by dsimp only; rw [hrecord],hrecord,hid⟩

/-- Rows that can be read let everything be read. -/
theorem sound_iff : Sound p reg ↔ Readable p reg := by
  refine ⟨Sound.rows,fun h => ?_⟩
  have hlists : ∀ status regionType, reg.listRegions p status regionType ≠ none := by
    intro status regionType
    obtain ⟨records,hrecords⟩ : ∃ records, (reg.rows.entries.insertionSort fun a b =>
        a.regionId ≤ b.regionId).mapM (fun row => p.construct row.payload) = some records := by
      refine exists_mapM fun row hrow => ?_
      have hmem : row ∈ reg.rows.entries := (List.mem_insertionSort _).mp hrow
      obtain ⟨record,hrecord,-⟩ := h row.regionId row (Table.get?_of_mem hmem)
      rw [hrecord]
      rfl
    rw [listRegions, hrecords]
    nofun
  refine ⟨h,fun id => ?_,hlists,?_⟩
  · obtain ⟨hget,-⟩ | ⟨row,record,-,hget,-⟩ := get_cases h id
    · rw [hget]
      nofun
    · rw [hget]
      nofun
  · rw [activeRegions, ne_eq, Option.map_eq_none_iff]
    exact hlists none none

theorem get?_write (now : ℚ) (id : String) (payload : Members J) (k : String) :
    (reg.write now id payload).rows.get? k =
      if k = id then (reg.rows.get? id).map fun row =>
        { row with payload := payload, updatedAt := now }
      else reg.rows.get? k :=
  Table.get?_modify reg.rows id (fun row => { row with payload := payload, updatedAt := now })
    (fun _ => rfl) k

/-- Writing a row leaves the others as they are. -/
theorem readable_write_iff (h : Readable p reg) {now : ℚ} {id : String} {payload : Members J}
    {row : RegionRow J} (hrow : reg.rows.get? id = some row) :
    Readable p (reg.write now id payload) ↔ ReadsAs p id payload := by
  constructor
  · intro hwrite
    refine hwrite id { row with payload := payload, updatedAt := now } ?_
    rw [get?_write, if_pos rfl, hrow]
    rfl
  · intro hreads k row' hrow'
    rw [get?_write] at hrow'
    by_cases hk : k = id
    · rw [if_pos hk, hrow] at hrow'
      obtain rfl := Option.some.inj hrow'
      exact hk ▸ hreads
    · rw [if_neg hk] at hrow'
      exact h k row' hrow'

/-- The times of a heartbeat leave the id alone. -/
theorem lookup_stamped (now : ℚ) (record : Members J) {f : String}
    (hheartbeat : f ≠ "last_heartbeat") (hupdated : f ≠ "updated_at") : (stamped p now record).lookup f = record.lookup f := by
  rw [stamped, lookup_setMember, if_neg hupdated, lookup_setMember, if_neg hheartbeat]

theorem readable_register (h : Readable p reg) (now : ℚ) (region : ValidRecord p) :
    Readable p (reg.register p now region) := by
  have hcanonical : p.Canonical region.record := Pydantic.canonical_construct region.valid
  have hreads : ∀ record, p.Canonical record →
      record.lookup "region_id" = region.record.lookup "region_id" →
      ReadsAs p region.regionId (modelDump (stamped p now record)) := by
    intro record hrecord hname
    refine readsAs_modelDump (canonical_stamped hrecord now) ?_
    rw [lookup_stamped now record (by decide) (by decide), hname, region.named]
  intro id row hrow
  rw [register, Table.get?_replace, RegionRow.key_eq] at hrow
  dsimp only at hrow
  by_cases hk : id = region.regionId
  · rw [if_pos hk] at hrow
    obtain rfl := Option.some.inj hrow
    rw [hk]
    by_cases hzero : (region.record.lookup "registered_at").any p.isZero = true
    · rw [if_pos hzero]
      refine hreads _ (canonical_setTime hcanonical now (Or.inl rfl)) ?_
      rw [lookup_setMember, if_neg (by decide)]
    · rw [if_neg hzero]
      exact hreads _ hcanonical rfl
  · rw [if_neg hk] at hrow
    exact h id row hrow

theorem readable_updateStatus (h : Readable p reg) (now : ℚ) (id : String)
    (status : RegionStatus) : Readable p (reg.updateStatus p now id status).1 := by
  unfold updateStatus updateStatusWrite
  obtain ⟨hget,-⟩ | ⟨row,record,hrow,hget,hrecord,hid⟩ := get_cases h id
  · rw [hget]
    exact h
  · rw [hget]
    refine (readable_write_iff h hrow).mpr ?_
    have hcanonical : p.Canonical record := Pydantic.canonical_construct hrecord
    refine readsAs_modelDump
      (canonical_setTime (canonical_setStatus hcanonical status) now (Or.inr (Or.inr rfl))) ?_
    rw [lookup_setMember, if_neg (by decide), lookup_setMember, if_neg (by decide), hid]

/-- A heartbeat keeps the rows readable exactly when it writes nothing that is not accepted. -/
theorem readable_heartbeat_iff (h : Readable p reg) (now : ℚ) (id : String) (updates : Updates J) :
    Readable p (reg.heartbeat p now id updates.1).1 ↔ ∀ record, reg.get p id = .ok (some record) →
      Raises p now updates.1 record ∨ Accepted p id updates.1 := by
  unfold heartbeat heartbeatWrite
  obtain ⟨hget,-⟩ | ⟨row,record,hrow,hget,hrecord,hid⟩ := get_cases h id
  · rw [hget]
    exact iff_of_true h nofun
  · rw [hget]
    have hone : (∀ r, (Except.ok (some record) : Except Unit _) = .ok (some r) →
        Raises p now updates.1 r ∨ Accepted p id updates.1) ↔
          (Raises p now updates.1 record ∨ Accepted p id updates.1) := by
      refine ⟨fun hall => hall record rfl,fun hsome r hr => ?_⟩
      obtain rfl := Option.some.inj (Except.ok.inj hr)
      exact hsome
    rw [hone]
    dsimp only
    obtain ⟨hraises,hbeat⟩ | ⟨hraises,payload,hbeat,hpayload⟩ := beat_cases now updates record
    · rw [hbeat]
      exact iff_of_true h (Or.inl hraises)
    · rw [hbeat, or_iff_right hraises]
      refine (readable_write_iff h hrow).trans ?_
      have hcanonical : p.Canonical record := Pydantic.canonical_construct hrecord
      have hstamped := canonical_stamped hcanonical now
      refine ⟨accepted_of_readsAs hstamped hpayload,fun h => h.readsAs hstamped ?_ hpayload⟩
      rw [lookup_stamped now record (by decide) (by decide), hid]

theorem readable_remove (h : Readable p reg) (id : String) : Readable p (reg.remove id) := by
  intro k row hrow
  rw [remove, Table.get?_erase] at hrow
  by_cases hk : k = id
  · rw [if_pos hk] at hrow
    cases hrow
  · rw [if_neg hk] at hrow
    exact h k row hrow

theorem readable_exec_iff (h : Readable p reg) (op : RegionOp p) :
    Readable p (reg.exec op) ↔ reg.Harmless op := by
  cases op with
  | register now region => exact iff_of_true (readable_register h now region) trivial
  | heartbeat now id updates => exact readable_heartbeat_iff h now id updates
  | updateStatus now id status => exact iff_of_true (readable_updateStatus h now id status) trivial
  | remove id => exact iff_of_true (readable_remove h id) trivial

/-- The registry can be read at every moment exactly when no heartbeat of the run writes updates
that are not accepted. -/
theorem always_sound_iff (ops : List (RegionOp p)) :
    (∀ before after, ops = before ++ after → Sound p (run exec ({} : RegionRows J) before)) ↔
      Along exec Harmless ({} : RegionRows J) ops := by
  have hstart : Readable p ({} : RegionRows J) := nofun
  refine (always_iff (sound_iff.mpr hstart) ops).trans ?_
  refine along_congr (I := Readable p) (fun _ _ hsound _ => sound_iff.mp hsound) ?_ hstart
  intro reg op h
  rw [sound_iff, readable_exec_iff h op]

/-- A region is registered, and a heartbeat tells a status that there is not. -/
def bogusStatus : List (RegionOp strictPydantic) :=
  [.register 1 euRegion,.heartbeat 2 "eu" ⟨[("status",.str "bogus")],by decide⟩]

theorem not_always_sound :
    ¬∀ ops : List (RegionOp strictPydantic), ∀ before after, ops = before ++ after →
      Sound strictPydantic (run exec ({} : RegionRows Json) before) := by
  intro h
  have hsound := h bogusStatus bogusStatus [] (by rw [List.append_nil])
  exact hsound.gets "eu" rfl

end RegionRows
end Arsonist.Regions
