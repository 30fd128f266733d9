import Arsonist.Library.Json
import Arsonist.Library.Keyed
import Arsonist.Library.Members
import Arsonist.Library.Runs
import Arsonist.Regions.RegionRegistry

/-! The rows of `regions/region_registry.py` as they are stored. A row is a JSON object that is read
as a `RegionRecord`; a heartbeat assigns whatever it is given to the attributes of the record, and
assignments are not validated. -/
namespace Arsonist.Regions
open Arsonist.Library

instance : StrEnum RegionStatus where
  all := [.active,.degraded,.draining,.offline]
  value
    | .active => "active"
    | .degraded => "degraded"
    | .draining => "draining"
    | .offline => "offline"
  mem_all s := by cases s <;> decide
  value_injective s t h := by
    cases s <;> cases t <;> first | rfl | exact absurd h (by decide)

instance : StrEnum RegionType where
  all := [.cloud,.edge,.hybrid]
  value
    | .cloud => "cloud"
    | .edge => "edge"
    | .hybrid => "hybrid"
  mem_all t := by cases t <;> decide
  value_injective s t h := by
    cases s <;> cases t <;> first | rfl | exact absurd h (by decide)

inductive FieldType
  | str
  | float
  | int
  | bool
  | regionType
  | status
  | gpuInventory
  | optionalStr
  | dict
  deriving DecidableEq

/-- A field of a model, with its default as it is written. Without one the field is required. -/
structure ModelField where
  name : String
  type : FieldType
  default : Option Json

/-- The fields of `RegionRecord`. -/
def regionFields : List ModelField :=
  [⟨"region_id",.str,none⟩,⟨"display_name",.str,some (.str "")⟩,
    ⟨"geographic_location",.str,some (.str "")⟩,⟨"latitude",.float,some (.float 0)⟩,
    ⟨"longitude",.float,some (.float 0)⟩,
    ⟨"region_type",.regionType,some (.str (StrEnum.value RegionType.cloud))⟩,
    ⟨"status",.status,some (.str (StrEnum.value RegionStatus.active))⟩,
    ⟨"capacity",.float,some (.float 1)⟩,
    ⟨"gpu_inventory",.gpuInventory,some (.obj [("total_gpus",.int 0),("available_gpus",.int 0),
      ("gpu_types",.obj []),("total_vram_gb",.float 0),("available_vram_gb",.float 0)])⟩,
    ⟨"avg_latency_ms",.float,some (.float 0)⟩,⟨"workload_saturation",.float,some (.float 0)⟩,
    ⟨"edge_connectivity",.bool,some (.bool true)⟩,⟨"failover_priority",.int,some (.int 0)⟩,
    ⟨"failover_target",.optionalStr,some .null⟩,⟨"endpoint_url",.str,some (.str "")⟩,
    ⟨"metadata",.dict,some (.obj [])⟩,⟨"registered_at",.float,some (.float 0)⟩,
    ⟨"last_heartbeat",.float,some (.float 0)⟩,⟨"updated_at",.float,some (.float 0)⟩]

def fieldNames : List String := regionFields.map ModelField.name

/-- The members of an object, or the attributes of a record. -/
abbrev Members (J : Type*) := List (String × J)

/-- The validation library, over the values that the JSON library reads, and what is relied on of
it: what it wrote is read as it is. -/
structure Pydantic (J : Type*) where
  ofJson : Json → J
  asObject : J → Option (Members J)
  asText : J → Option String
  /-- `v == 0.0` -/
  isZero : J → Bool
  /-- The value of a field as it is written again, or `none` for a `ValidationError`. -/
  read : FieldType → J → Option J
  /-- Whether assigning to some of the names, or dumping afterwards, raises. -/
  raises : Members J → Members J → Bool
  asText_str : ∀ s, asText (ofJson (.str s)) = some s
  read_read : ∀ {t v w}, read t v = some w → read t w = some w
  read_default : ∀ f ∈ regionFields, ∀ d, f.default = some d →
    read f.type (ofJson d) = some (ofJson d)
  read_float : ∀ q, read .float (ofJson (.float q)) = some (ofJson (.float q))
  read_status : ∀ s : RegionStatus,
    read .status (ofJson (.str (StrEnum.value s))) = some (ofJson (.str (StrEnum.value s)))

namespace Pydantic
variable {J : Type*} (p : Pydantic J)

/-- The value that a record gets in a field from a row. -/
def fieldOf (row : Members J) (f : ModelField) : Option J :=
  match row.lookup f.name with
  | some v => p.read f.type v
  | none => f.default.map p.ofJson

/-- `RegionRecord(**row)`: `none` stands for a `ValidationError`. -/
def construct (row : Members J) : Option (Members J) :=
  regionFields.mapM fun f => (p.fieldOf row f).map fun v => (f.name,v)

end Pydantic

/-- Assign to an attribute that is there. -/
def setMember {J : Type*} (record : Members J) (name : String) (v : J) : Members J :=
  record.map fun m => if m.1 = name then (name,v) else m

/-- `model_dump` writes the fields. -/
def modelDump {J : Type*} (record : Members J) : Members J :=
  record.filter fun m => m.1 ∈ fieldNames

/-- A row of `regions`. -/
structure RegionRow (J : Type*) where
  regionId : String
  payload : Members J
  updatedAt : ℚ

instance {J : Type*} : Keyed (RegionRow J) String := ⟨RegionRow.regionId⟩

@[simp] theorem RegionRow.key_eq {J : Type*} (row : RegionRow J) :
    Keyed.key row = row.regionId := rfl

/-- A record that has been validated: reading it again changes nothing. -/
structure ValidRecord {J : Type*} (p : Pydantic J) where
  regionId : String
  record : Members J
  valid : p.construct record = some record
  named : (record.lookup "region_id").bind p.asText = some regionId

/-- A JSON object of updates: its names are pairwise different. -/
abbrev Updates (J : Type*) := {o : Members J // (o.map Prod.fst).Nodup}

structure RegionRows (J : Type*) where
  rows : Table (RegionRow J) := .empty

namespace RegionRows
variable {J : Type*} (p : Pydantic J) (reg : RegionRows J)

/-- An error stands for a row that is no `RegionRecord`. -/
def get (id : String) : Except Unit (Option (Members J)) :=
  match reg.rows.get? id with
  | none => .ok none
  | some row =>
    match p.construct row.payload with
    | none => .error ()
    | some record => .ok (some record)

def register (now : ℚ) (region : ValidRecord p) : RegionRows J :=
  let ts := p.ofJson (.float now)
  let record :=
    if (region.record.lookup "registered_at").any p.isZero then
      setMember region.record "registered_at" ts
    else region.record
  let record := setMember (setMember record "last_heartbeat" ts) "updated_at" ts
  { rows := reg.rows.replace ⟨region.regionId,modelDump record,now⟩ }

/-- The payload and the time of a row that exists are written. -/
def write (now : ℚ) (id : String) (payload : Members J) : RegionRows J :=
  { rows := reg.rows.modify id fun row => { row with payload := payload, updatedAt := now } }

/-- `setattr` for one of the updates, if the record has such an attribute. Names that are no fields
leave the fields alone, but `__dict__` replaces them all. `none` stands for a `TypeError`. -/
def assign (record : Members J) (m : String × J) : Option (Members J) :=
  if m.1 = "__dict__" then p.asObject m.2
  else if m.1 ∈ fieldNames then some (setMember record m.1 m.2)
  else some record

/-- The record with the times of a heartbeat. -/
def stamped (now : ℚ) (record : Members J) : Members J :=
  setMember (setMember record "last_heartbeat" (p.ofJson (.float now))) "updated_at"
    (p.ofJson (.float now))

/-- What a heartbeat writes for the record that it read; `none` if it raises before. -/
def beat (now : ℚ) (updates : Members J) (record : Members J) : Option (Members J) :=
  if p.raises (stamped p now record) updates then none
  else (updates.foldlM (assign p) (stamped p now record)).map modelDump

/-- The second half of a heartbeat, with what the first half read. -/
def heartbeatWrite (now : ℚ) (id : String) (updates : Members J)
    (region : Except Unit (Option (Members J))) :
    RegionRows J × Except Unit (Option (Members J)) :=
  match region with
  | .ok (some record) =>
    match beat p now updates record with
    | none => (reg,.error ())
    | some payload => (reg.write now id payload,.ok (some payload))
  | region => (reg,region)

def heartbeat (now : ℚ) (id : String) (updates : Members J) :
    RegionRows J × Except Unit (Option (Members J)) :=
  reg.heartbeatWrite p now id updates (reg.get p id)

/-- What a change of the status writes for the record that it read. -/
def withStatus (now : ℚ) (status : RegionStatus) (record : Members J) : Members J :=
  modelDump (setMember (setMember record "status" (p.ofJson (.str (StrEnum.value status))))
    "updated_at" (p.ofJson (.float now)))

/-- The second half of a change of the status. -/
def updateStatusWrite (now : ℚ) (id : String) (status : RegionStatus)
    (region : Except Unit (Option (Members J))) :
    RegionRows J × Except Unit (Option (Members J)) :=
  match region with
  | .ok (some record) =>
    (reg.write now id (withStatus p now status record),.ok (some (withStatus p now status record)))
  | region => (reg,region)

def updateStatus (now : ℚ) (id : String) (status : RegionStatus) :
    RegionRows J × Except Unit (Option (Members J)) :=
  reg.updateStatusWrite p now id status (reg.get p id)

def remove (id : String) : RegionRows J := { rows := reg.rows.erase id }

/-- All rows, in the order of their ids; `none` if one of them raises. -/
def listRegions (status : Option RegionStatus) (regionType : Option RegionType) :
    Option (List (Members J)) :=
  ((reg.rows.entries.insertionSort fun a b => a.regionId ≤ b.regionId).mapM fun row =>
    p.construct row.payload).map fun regions => regions.filter fun record =>
      (∀ s ∈ status, (record.lookup "status").bind p.asText = some (StrEnum.value s)) ∧
        ∀ t ∈ regionType, (record.lookup "region_type").bind p.asText = some (StrEnum.value t)

def activeRegions : Option (List (Members J)) :=
  (reg.listRegions p none none).map fun regions => regions.filter fun record =>
    (record.lookup "status").bind p.asText = some (StrEnum.value RegionStatus.active) ∨
      (record.lookup "status").bind p.asText = some (StrEnum.value RegionStatus.degraded)

end RegionRows

theorem lookup_setMember {J : Type*} (record : Members J) (name : String) (v : J) (f : String) :
    (setMember record name v).lookup f =
      if f = name then (record.lookup f).map fun _ => v else record.lookup f :=
  lookup_set record name v f

theorem lookup_modelDump {J : Type*} (record : Members J) {f : String} (hf : f ∈ fieldNames) :
    (modelDump record).lookup f = record.lookup f :=
  lookup_filter_fst (fun name => name ∈ fieldNames) record (decide_eq_true hf)

theorem fieldNames_nodup : (regionFields.map ModelField.name).Nodup := by decide

theorem name_mem {f : ModelField} (hf : f ∈ regionFields) : f.name ∈ fieldNames :=
  List.mem_map_of_mem hf

namespace Pydantic
variable {J : Type*} {p : Pydantic J} {row row' record : Members J}

/-- A row is read by its fields. -/
theorem construct_congr (h : ∀ f ∈ fieldNames, row.lookup f = row'.lookup f) :
    p.construct row = p.construct row' := by
  unfold construct
  refine mapM_congr_of_mem fun f hf => ?_
  rw [fieldOf, fieldOf, h f.name (name_mem hf)]

theorem construct_modelDump (record : Members J) :
    p.construct (modelDump record) = p.construct record :=
  construct_congr fun _ hf => lookup_modelDump record hf

theorem lookup_construct (h : p.construct row = some record) {f : ModelField}
    (hf : f ∈ regionFields) : record.lookup f.name = p.fieldOf row f :=
  (lookup_mapM_named fieldNames_nodup h f hf).1

theorem construct_isSome_iff :
    (p.construct row).isSome = true ↔ ∀ f ∈ regionFields, (p.fieldOf row f).isSome = true := by
  constructor
  · intro h
    obtain ⟨record,hrecord⟩ := Option.isSome_iff_exists.mp h
    exact fun f hf => (lookup_mapM_named fieldNames_nodup hrecord f hf).2
  · intro h
    obtain ⟨record,hrecord⟩ := exists_mapM fun f hf => Option.isSome_map.trans (h f hf)
    exact Option.isSome_iff_exists.mpr ⟨record,hrecord⟩

/-- What a record has in a field is read as it is. -/
theorem read_of_construct (h : p.construct row = some record) {f : ModelField}
    (hf : f ∈ regionFields) : ∃ v, record.lookup f.name = some v ∧ p.read f.type v = some v := by
  obtain ⟨hlookup,hsome⟩ := lookup_mapM_named fieldNames_nodup h f hf
  obtain ⟨v,hv⟩ := Option.isSome_iff_exists.mp hsome
  refine ⟨v,hlookup.trans hv,?_⟩
  unfold fieldOf at hv
  cases hrow : row.lookup f.name with
  | some x =>
    rw [hrow] at hv
    exact p.read_read hv
  | none =>
    rw [hrow] at hv
    obtain ⟨d,hd,rfl⟩ := Option.map_eq_some_iff.mp hv
    exact p.read_default f hf d hd

variable (p) in
/-- Each field is there, with a value that is read as it is. -/
def Canonical (record : Members J) : Prop :=
  ∀ f ∈ regionFields, ∃ v, record.lookup f.name = some v ∧ p.read f.type v = some v

theorem canonical_construct (h : p.construct row = some record) : p.Canonical record :=
  fun _ hf => read_of_construct h hf

theorem Canonical.setMember (h : p.Canonical record) {name : String} {v : J}
    (hv : ∀ f ∈ regionFields, f.name = name → p.read f.type v = some v) :
    p.Canonical (setMember record name v) := by
  intro f hf
  obtain ⟨x,hx,hread⟩ := h f hf
  rw [lookup_setMember]
  by_cases hname : f.name = name
  · rw [if_pos hname, hx]
    exact ⟨v,rfl,hv f hf hname⟩
  · rw [if_neg hname]
    exact ⟨x,hx,hread⟩

/-- A record whose values are read as they are is a record again. -/
theorem Canonical.construct (h : p.Canonical record) :
    ∃ record', p.construct record = some record' ∧
      ∀ f ∈ regionFields, record'.lookup f.name = record.lookup f.name := by
  have hfield : ∀ f ∈ regionFields, p.fieldOf record f = record.lookup f.name := by
    intro f hf
    obtain ⟨v,hv,hread⟩ := h f hf
    rw [fieldOf, hv]
    exact hread
  have hsome : (p.construct record).isSome = true := construct_isSome_iff.mpr fun f hf => by
    obtain ⟨v,hv,-⟩ := h f hf
    rw [hfield f hf, hv]
    rfl
  obtain ⟨record',hrecord⟩ := Option.isSome_iff_exists.mp hsome
  exact ⟨record',hrecord,fun f hf => (lookup_construct hrecord hf).trans (hfield f hf)⟩

end Pydantic

theorem float_of_time : ∀ f ∈ regionFields,
    f.name = "registered_at" ∨ f.name = "last_heartbeat" ∨ f.name = "updated_at" →
      f.type = .float := by decide

theorem status_of_name : ∀ f ∈ regionFields, f.name = "status" → f.type = .status := by decide

/-- The field that has no default. -/
def regionIdField : ModelField := ⟨"region_id",.str,none⟩

theorem regionIdField_mem : regionIdField ∈ regionFields := List.mem_cons_self

theorem default_isSome : ∀ f ∈ regionFields, f.default.isSome = true ∨ f.name = "region_id" := by
  decide

namespace RegionRows
variable {J : Type*} {p : Pydantic J} {record : Members J}

theorem canonical_setTime (h : p.Canonical record) (now : ℚ) {name : String}
    (hname : name = "registered_at" ∨ name = "last_heartbeat" ∨ name = "updated_at") :
    p.Canonical (setMember record name (p.ofJson (.float now))) := by
  refine h.setMember fun f hf he => ?_
  rw [float_of_time f hf (he ▸ hname)]
  exact p.read_float now

theorem canonical_stamped (h : p.Canonical record) (now : ℚ) :
    p.Canonical (stamped p now record) :=
  canonical_setTime (canonical_setTime h now (Or.inr (Or.inl rfl))) now (Or.inr (Or.inr rfl))

theorem canonical_setStatus (h : p.Canonical record) (status : RegionStatus) :
    p.Canonical (setMember record "status" (p.ofJson (.str (StrEnum.value status)))) := by
  refine h.setMember fun f hf he => ?_
  rw [status_of_name f hf he]
  exact p.read_status status

/-- The row reads as a record with its own id. -/
def ReadsAs (p : Pydantic J) (id : String) (payload : Members J) : Prop :=
  ∃ record, p.construct payload = some record ∧
    (record.lookup "region_id").bind p.asText = some id

theorem readsAs_modelDump {id : String} (h : p.Canonical record)
    (hid : (record.lookup "region_id").bind p.asText = some id) :
    ReadsAs p id (modelDump record) := by
  obtain ⟨record',hrecord,hlookup⟩ := h.construct
  refine ⟨record',by rw [Pydantic.construct_modelDump, hrecord],?_⟩
  have hname : record'.lookup "region_id" = record.lookup "region_id" :=
    hlookup regionIdField regionIdField_mem
  rw [hname, hid]

end RegionRows
/-- A library that accepts only values of the very type of a field. -/
def strictRead : FieldType → Json → Option Json
  | .str,.str s => some (.str s)
  | .float,.float q => some (.float q)
  | .int,.int n => some (.int n)
  | .bool,.bool b => some (.bool b)
  | .regionType,.str s =>
    (StrEnum.ofValue s : Option RegionType).map fun t => .str (StrEnum.value t)
  | .status,.str s =>
    (StrEnum.ofValue s : Option RegionStatus).map fun t => .str (StrEnum.value t)
  | .gpuInventory,.obj o =>
    if o.map Prod.fst = ["total_gpus","available_gpus","gpu_types","total_vram_gb",
      "available_vram_gb"] then some (.obj o) else none
  | .optionalStr,.null => some .null
  | .optionalStr,.str s => some (.str s)
  | .dict,.obj o => some (.obj o)
  | _,_ => none

theorem strictRead_strictRead {t : FieldType} {v w : Json} (h : strictRead t v = some w) :
    strictRead t w = some w := by
  unfold strictRead at h
  split at h
  case h_5 s =>
    obtain ⟨t,-,rfl⟩ := Option.map_eq_some_iff.mp h
    rw [strictRead, StrEnum.ofValue_value]
    rfl
  case h_6 s =>
    obtain ⟨t,-,rfl⟩ := Option.map_eq_some_iff.mp h
    rw [strictRead, StrEnum.ofValue_value]
    rfl
  case h_7 o =>
    obtain ⟨hnames,h⟩ := Option.ite_none_right_eq_some.mp h
    obtain rfl := Option.some.inj h
    rw [strictRead, if_pos hnames]
  case h_11 => cases h
  all_goals
    obtain rfl := Option.some.inj h
    rfl

def strictPydantic : Pydantic Json where
  ofJson := id
  asObject := Json.asObject
  asText := Json.asStr
  isZero
    | .int n => n = 0
    | .float q => q = 0
    | _ => false
  read := strictRead
  raises _ _ := false
  asText_str _ := rfl
  read_read := strictRead_strictRead
  read_default := by
    intro f hf d hd
    simp only [regionFields, List.mem_cons, List.not_mem_nil, or_false] at hf
    obtain rfl | rfl | rfl | rfl | rfl | rfl | rfl | rfl | rfl | rfl | rfl | rfl | rfl | rfl |
      rfl | rfl | rfl | rfl | rfl := hf
    · cases hd
    all_goals
      obtain rfl := Option.some.inj hd
      rfl
  read_float _ := rfl
  read_status s := by cases s <;> rfl

/-- A region that was registered with its id only. -/
def euRegion : ValidRecord strictPydantic where
  regionId := "eu"
  record := regionFields.map fun f => (f.name,f.default.getD (.str "eu"))
  valid := rfl
  named := rfl

end Arsonist.Regions
