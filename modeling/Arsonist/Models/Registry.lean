import Arsonist.Library.JsonText
import Arsonist.Library.Keyed

/-! The registry of models: `models/registry.py` and the two routes of `control_plane/v11_api.py`
that use it. A record is stored as JSON text. Its time is taken before the lock, so the times of
later requests need not be later. -/
namespace Arsonist.Models
open Arsonist.Library Json

abbrev ModelId := String

structure ModelRecord where
  modelId : ModelId
  modelName : String
  version : String := "1"
  parameterCount : ℤ := 0
  quantization : String := "none"
  supportedGpuTypes : List String := []
  requiredVramMb : ℤ := 8192
  tokenizer : String := "default"
  architecture : String := "unknown"
  sourceUri : String := ""
  checksumSha256 : String := ""
  updatedAt : ℚ := 0
  deriving DecidableEq

namespace ModelRecord

def modelDump (m : ModelRecord) : Json.Object :=
  [("model_id",str m.modelId),
   ("model_name",str m.modelName),
   ("version",str m.version),
   ("parameter_count",int m.parameterCount),
   ("quantization",str m.quantization),
   ("supported_gpu_types",ofStrings m.supportedGpuTypes),
   ("required_vram_mb",int m.requiredVramMb),
   ("tokenizer",str m.tokenizer),
   ("architecture",str m.architecture),
   ("source_uri",str m.sourceUri),
   ("checksum_sha256",str m.checksumSha256),
   ("updated_at",float m.updatedAt)]

/-- `ModelRecord(**o)` of an object that has an id. -/
def ofJson (o : Json.Object) : Option ModelRecord := do
  let modelId ← required o "model_id" asStr
  let modelName ← required o "model_name" asStr
  let version ← defaulted o "version" asStr "1"
  let parameterCount ← defaulted o "parameter_count" asInt 0
  let quantization ← defaulted o "quantization" asStr "none"
  let supportedGpuTypes ← defaulted o "supported_gpu_types" asStrings []
  let requiredVramMb ← defaulted o "required_vram_mb" asInt 8192
  let tokenizer ← defaulted o "tokenizer" asStr "default"
  let architecture ← defaulted o "architecture" asStr "unknown"
  let sourceUri ← defaulted o "source_uri" asStr ""
  let checksumSha256 ← defaulted o "checksum_sha256" asStr ""
  let updatedAt ← defaulted o "updated_at" asFloat 0
  some { modelId := modelId, modelName := modelName, version := version
         parameterCount := parameterCount, quantization := quantization
         supportedGpuTypes := supportedGpuTypes, requiredVramMb := requiredVramMb
         tokenizer := tokenizer, architecture := architecture, sourceUri := sourceUri
         checksumSha256 := checksumSha256, updatedAt := updatedAt }

/-- `json.dumps(rec.model_dump())`. -/
def payload (m : ModelRecord) : String := encode (obj m.modelDump)

/-- `ModelRecord(**json.loads(payload))`. -/
def read (payload : String) : Option ModelRecord := ((decode payload).bind asObject).bind ofJson

/-- `validate_record`. -/
def validate (m : ModelRecord) : List String :=
  (if m.modelName = "" then ["model_name required"] else []) ++
    if m.requiredVramMb ≤ 0 then ["required_vram_mb must be positive"] else []

theorem validate_eq_nil_iff {m : ModelRecord} :
    m.validate = [] ↔ m.modelName ≠ "" ∧ 0 < m.requiredVramMb := by
  rw [validate]
  split_ifs with hname hvram hvram <;> simp [hname]
  · exact hvram
  · omega

theorem ofJson_modelDump (m : ModelRecord) : ofJson m.modelDump = some m := by
  have htypes : defaulted m.modelDump "supported_gpu_types" asStrings [] =
      some m.supportedGpuTypes :=
    asStrings_ofStrings m.supportedGpuTypes
  rw [ofJson, htypes]
  rfl

theorem itemsWellFormed_strings (l : List String) : itemsWellFormed (l.map str) = true := by
  induction l with
  | nil => rfl
  | cons s l ih => exact ih

/-- The text of a record reads back as the record. -/
theorem read_payload {m : ModelRecord} (h : IsDecimal m.updatedAt) : read m.payload = some m := by
  have hwell : wellFormed (obj m.modelDump) := by
    rw [wellFormed, Bool.and_eq_true, decide_eq_true_iff]
    refine ⟨by simp [modelDump],?_⟩
    simp only [modelDump, membersWellFormed, Bool.and_true, Bool.and_eq_true]
    have htypes := itemsWellFormed_strings m.supportedGpuTypes
    exact ⟨rfl,rfl,rfl,rfl,rfl,htypes,rfl,rfl,rfl,rfl,rfl,decide_eq_true h⟩
  rw [read, payload, decode_encode hwell]
  exact ofJson_modelDump m

end ModelRecord

/-- A row of `models`. -/
structure ModelRow where
  modelId : ModelId
  payload : String
  updatedAt : ℚ
  deriving DecidableEq

instance instKeyedModelRow : Keyed ModelRow ModelId := ⟨ModelRow.modelId⟩

/-- The row that a record is stored as. -/
def ModelRecord.row (m : ModelRecord) : ModelRow := ⟨m.modelId,m.payload,m.updatedAt⟩

abbrev ModelRegistry := Table ModelRow

namespace ModelRegistry

/-- `upsert`. -/
def upsert (now : Decimal) (m : ModelRecord) (r : ModelRegistry) : ModelRegistry :=
  r.put { m with updatedAt := now.val }.row

/-- `get`, which raises where a text is none of a record. -/
def get (r : ModelRegistry) (id : ModelId) : Option (Option ModelRecord) :=
  match r.get? id with
  | some row => (ModelRecord.read row.payload).map some
  | none => some none

/-- Rows as `ORDER BY updated_at DESC` can return them. Rows of one time are in any order. -/
def Fetches (r : ModelRegistry) (rows : List ModelRow) : Prop :=
  rows.Perm r.entries ∧ rows.Pairwise fun a b => b.updatedAt ≤ a.updatedAt

instance instDecidableFetches (r : ModelRegistry) (rows : List ModelRow) :
    Decidable (r.Fetches rows) :=
  inferInstanceAs (Decidable (_ ∧ _))

/-- The loop in `search`. -/
def searchLoop (found : ModelRecord → Bool) (limit : ℤ) :
    List ModelRow → List ModelRecord → Option (List ModelRecord)
  | [], out => some out
  | row :: rows, out => do
    let m ← ModelRecord.read row.payload
    let out := if found m then out ++ [m] else out
    if limit ≤ out.length then some out else searchLoop found limit rows out

/-- `q in rec.model_name.lower() or q in rec.architecture.lower()`. -/
def isMatch (lower : String → String) (query : String) (m : ModelRecord) : Bool :=
  (lower query).toList <:+: (lower m.modelName).toList ∨
    (lower query).toList <:+: (lower m.architecture).toList

/-- `search` on the rows that the database returns. -/
def search (lower : String → String) (rows : List ModelRow) (query : String) (limit : ℤ) :
    Option (List ModelRecord) :=
  searchLoop (isMatch lower query) limit rows []

/-- `register_model`, from the record of its payload on. -/
def registerModel (now : Decimal) (m : ModelRecord) (r : ModelRegistry) :
    ModelRegistry × Except (List String) ModelId :=
  if m.validate = [] then (r.upsert now m,.ok m.modelId) else (r,.error m.validate)

end ModelRegistry

/-- A request to register a model, with the time that it is given. -/
structure Registration where
  record : ModelRecord
  now : Decimal

namespace Registration

/-- The record that a request stores, if it is accepted. -/
def stored? (q : Registration) : Option ModelRecord :=
  if q.record.validate = [] then some { q.record with updatedAt := q.now.val } else none

/-- The records that some requests store, in the order of their writes. -/
def stored (run : List Registration) : List ModelRecord := run.filterMap stored?

/-- The record of a model after some requests: the last one that was accepted. -/
def latest (run : List Registration) (id : ModelId) : Option ModelRecord :=
  ((stored run).filter fun m => m.modelId = id).getLast?

/-- The registry after some requests, whose writes come one after the other. -/
def registry (run : List Registration) : ModelRegistry :=
  run.foldl (fun r q => (r.registerModel q.now q.record).1) Table.empty

variable {run : List Registration} {m : ModelRecord}

theorem of_stored? {q : Registration} (h : q.stored? = some m) :
    m.modelName ≠ "" ∧ 0 < m.requiredVramMb ∧ IsDecimal m.updatedAt := by
  rw [stored?] at h
  split_ifs at h with hvalid
  obtain rfl := Option.some.inj h
  obtain ⟨hname,hvram⟩ := ModelRecord.validate_eq_nil_iff.mp hvalid
  exact ⟨hname,hvram,q.now.property⟩

theorem of_mem_stored (h : m ∈ stored run) :
    m.modelName ≠ "" ∧ 0 < m.requiredVramMb ∧ IsDecimal m.updatedAt := by
  obtain ⟨q,-,hq⟩ := List.mem_filterMap.mp h
  exact of_stored? hq

theorem mem_stored_of_latest {id : ModelId} (h : latest run id = some m) :
    m ∈ stored run ∧ m.modelId = id := by
  have hmem := List.mem_of_getLast? h
  rw [List.mem_filter, decide_eq_true_iff] at hmem
  exact hmem

theorem registry_eq (run : List Registration) :
    registry run = ((stored run).map ModelRecord.row).foldl Table.put Table.empty := by
  induction run using List.reverseRecOn with
  | nil => rfl
  | append_singleton run q ih =>
    have hone : registry (run ++ [q]) = ((registry run).registerModel q.now q.record).1 := by
      rw [registry, List.foldl_concat, registry]
    have hstored : stored (run ++ [q]) = stored run ++ q.stored?.toList := by
      rw [stored, List.filterMap_append, stored]
      cases hq : q.stored? <;> simp [hq]
    rw [hone, hstored, List.map_append, List.foldl_append, ← ih]
    unfold ModelRegistry.registerModel stored?
    split_ifs <;> rfl

/-- The row of a model is that of the last record which was accepted for it. -/
theorem get?_registry (run : List Registration) (id : ModelId) :
    (registry run).get? id = (latest run id).map ModelRecord.row := by
  rw [registry_eq, Table.get?_foldl_put_last, Table.get?_empty, Option.or_none, latest,
    List.filter_map, List.getLast?_map]
  rfl

theorem read_latest {id : ModelId} (h : latest run id = some m) :
    ModelRecord.read m.payload = some m :=
  ModelRecord.read_payload (of_mem_stored (mem_stored_of_latest h).1).2.2

theorem get_registry (run : List Registration) (id : ModelId) :
    (registry run).get id = some (latest run id) := by
  rw [ModelRegistry.get, get?_registry]
  cases h : latest run id with
  | none => rfl
  | some m =>
    simp only [Option.map_some, ModelRecord.row]
    rw [read_latest h]
    rfl

/-- Some records are those of the registry, in an order of their times that the database may
return. -/
structure Recent (run : List Registration) (recs : List ModelRecord) : Prop where
  nodup : recs.Nodup
  mem_iff : ∀ m, m ∈ recs ↔ latest run m.modelId = some m
  latest_first : recs.Pairwise fun a b => b.updatedAt ≤ a.updatedAt

/-- The rows that the database returns are those of such records. -/
theorem exists_recent {rows : List ModelRow} (h : (registry run).Fetches rows) :
    ∃ recs, Recent run recs ∧ rows = recs.map ModelRecord.row := by
  obtain ⟨hperm,hsorted⟩ := h
  have hrow : ∀ row ∈ rows, ∃ m, latest run m.modelId = some m ∧ m.row = row := by
    intro row hmem
    have hget := Table.get?_of_mem (hperm.subset hmem)
    rw [get?_registry] at hget
    obtain ⟨m,hm,rfl⟩ := Option.map_eq_some_iff.mp hget
    obtain ⟨-,hid⟩ := mem_stored_of_latest hm
    exact ⟨m,by rwa [hid],rfl⟩
  have hall : ∃ recs : List ModelRecord, (∀ m ∈ recs, latest run m.modelId = some m) ∧
      rows = recs.map ModelRecord.row := by
    clear hperm hsorted
    induction rows with
    | nil => exact ⟨[],by simp,rfl⟩
    | cons row rows ih =>
      obtain ⟨m,hm,rfl⟩ := hrow row List.mem_cons_self
      obtain ⟨recs,hrecs,rfl⟩ := ih fun row' hrow' => hrow row' (List.mem_cons_of_mem _ hrow')
      exact ⟨m :: recs,List.forall_mem_cons.mpr ⟨hm,hrecs⟩,rfl⟩
  obtain ⟨recs,hrecs,rfl⟩ := hall
  refine ⟨recs,⟨?_,?_,?_⟩,rfl⟩
  · have hnodup := (hperm.map Keyed.key).nodup_iff.mpr (registry run).nodup
    exact (List.Nodup.of_map _ (List.Nodup.of_map _ hnodup))
  · refine fun m => ⟨hrecs m,fun hm => ?_⟩
    have hget : (registry run).get? m.modelId = some m.row := by rw [get?_registry, hm]; rfl
    have hmem := hperm.symm.subset (Table.mem_of_get? hget)
    obtain ⟨m',hm',hrow'⟩ := List.mem_map.mp hmem
    have hid : m'.modelId = m.modelId := congrArg ModelRow.modelId hrow'
    have hlast := hrecs m' hm'
    rw [hid, hm] at hlast
    exact Option.some.inj hlast ▸ hm'
  · exact List.pairwise_map.mp hsorted

end Registration

namespace ModelRegistry

variable {found : ModelRecord → Bool} {limit : ℤ}

/-- The answer of a search of some records: the first ones that are found, up to the limit. Where
the limit is not positive the loop ends after the first record, found or not. -/
def answer (found : ModelRecord → Bool) (limit : ℤ) (recs : List ModelRecord) :
    List ModelRecord :=
  if 0 < limit then (recs.filter found).take limit.toNat else (recs.take 1).filter found

theorem searchLoop_eq (recs : List ModelRecord)
    (hread : ∀ m ∈ recs, ModelRecord.read m.payload = some m)
    (out : List ModelRecord) (hout : (out.length : ℤ) < limit) :
    searchLoop found limit (recs.map ModelRecord.row) out =
      some (out ++ (recs.filter found).take (limit.toNat-out.length)) := by
  induction recs generalizing out with
  | nil => simp [searchLoop]
  | cons m recs ih =>
    obtain ⟨hm,hrecs⟩ := List.forall_mem_cons.mp hread
    rw [List.map_cons, searchLoop, ModelRecord.row, hm, Option.bind_eq_bind, Option.bind_some]
    by_cases hfound : found m
    · rw [if_pos hfound, List.filter_cons_of_pos hfound]
      dsimp only
      split_ifs with hfull
      · have hone : limit.toNat-out.length = 1 := by
          rw [List.length_append, List.length_singleton] at hfull
          omega
        rw [hone]
        rfl
      · rw [ih hrecs _ (not_le.mp hfull), List.append_assoc]
        have hnext : limit.toNat-out.length = limit.toNat-(out ++ [m]).length+1 := by
          rw [List.length_append, List.length_singleton] at hfull ⊢
          omega
        rw [hnext]
        rfl
    · rw [if_neg hfound, List.filter_cons_of_neg hfound, if_neg (not_le.mpr hout)]
      exact ih hrecs out hout

theorem searchLoop_answer (recs : List ModelRecord)
    (hread : ∀ m ∈ recs, ModelRecord.read m.payload = some m) :
    searchLoop found limit (recs.map ModelRecord.row) [] = some (answer found limit recs) := by
  by_cases hlimit : 0 < limit
  · rw [searchLoop_eq recs hread [] (by simpa using hlimit), answer, if_pos hlimit]
    rfl
  · rw [answer, if_neg hlimit]
    cases recs with
    | nil => rfl
    | cons m recs =>
      obtain ⟨hm,-⟩ := List.forall_mem_cons.mp hread
      rw [List.map_cons, searchLoop, ModelRecord.row, hm, Option.bind_eq_bind, Option.bind_some]
      by_cases hfound : found m <;> simp [hfound] <;> omega

theorem search_recent {run : List Registration} {recs : List ModelRecord}
    (h : Registration.Recent run recs) (lower : String → String) (query : String) (limit : ℤ) :
    search lower (recs.map ModelRecord.row) query limit =
      some (answer (isMatch lower query) limit recs) :=
  searchLoop_answer recs fun m hm => Registration.read_latest ((h.mem_iff m).mp hm)

end ModelRegistry

/-- After every run of requests, a model is found with exactly the last record that was accepted
for it, and a search finds the first records of those that match, the latest first. -/
theorem registry_after (run : List Registration) :
    (∀ id, (Registration.registry run).get id = some (Registration.latest run id)) ∧
    (∀ id m, Registration.latest run id = some m → m.modelName ≠ "" ∧ 0 < m.requiredVramMb) ∧
    ∀ rows, (Registration.registry run).Fetches rows → ∃ recs, Registration.Recent run recs ∧
      ∀ lower query limit, ModelRegistry.search lower rows query limit =
        some (ModelRegistry.answer (ModelRegistry.isMatch lower query) limit recs) := by
  refine ⟨Registration.get_registry run,fun id m h => ?_,fun rows h => ?_⟩
  · obtain ⟨hname,hvram,-⟩ := Registration.of_mem_stored (Registration.mem_stored_of_latest h).1
    exact ⟨hname,hvram⟩
  · obtain ⟨recs,hrecs,rfl⟩ := Registration.exists_recent h
    exact ⟨recs,hrecs,ModelRegistry.search_recent hrecs⟩

end Arsonist.Models
