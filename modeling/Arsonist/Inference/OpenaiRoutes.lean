import Arsonist.Gateway.UsageMeter

/-! The inference routes for requests that the gateway has let through. Content is generated first;
what the usage meter does with it has no influence on the answer. -/
namespace Arsonist.Inference
open Arsonist.Library Arsonist.Billing Arsonist.Gateway

/-- What the environment sets for all requests; `repr` is `str` of what is not text. -/
structure InferenceEnv where
  defaultChatModel : String
  defaultEmbedModel : String
  repr : Json → String

/-- The backend as a request finds it. A call without a value raises. -/
structure Backend where
  available : Bool
  chat : String → Json → Option Json
  embeddings : String → Json → Option Json
  generate : String → String → Option Json

inductive InferenceRoute
  | chatCompletions
  | embeddings
  | generate
  deriving DecidableEq

structure InferenceRequest where
  route : InferenceRoute
  tenant : Option TenantContext
  payload : Json.Object

/-- Content that a request is answered with. -/
inductive Generated
  | message (model content : String)
  | vector (model : String) (embedding : Json) (dim : ℕ)
  | text (model response : String)

/-- The tokens that content is estimated to have. -/
def Generated.estimatedTokens : Generated → ℚ
  | .message _ content => textTokens content
  | .vector _ _ dim => vectorTokens dim
  | .text _ response => textTokens response

section Routes
variable (env : InferenceEnv) (backend : Backend)

/-- `str(value)`. -/
def textOf : Json → String
  | .str text => text
  | value => env.repr value

/-- `payload.get(name, default)`. -/
def field (payload : Json.Object) (name : String) (default : Json) : Json :=
  (payload.lookup name).getD default

/-- `value.get(name, default)`, which only an object has. -/
def member (value : Json) (name : String) (default : Json) : Option Json :=
  value.asObject.map fun members => field members name default

/-- `len(value)`. -/
def lengthOf : Json → Option ℕ
  | .str text => some text.length
  | .arr items => some items.length
  | .obj members => some members.length
  | _ => none

def unavailable (detail : String) : HttpError := { status := 503, detail := detail }

/-- An answer without a value is one to an exception that no handler expects. -/
def orServerError (generated : Option Generated) : Reply Generated :=
  generated.elim (.error serverError) .ok

def chatCompletions (payload : Json.Object) : Reply Generated :=
  let model := textOf env (field payload "model" (.str env.defaultChatModel))
  let messages := field payload "messages" .null
  if (field payload "stream" (.bool false)).truthy then
    .error { status := 400, detail := "streaming mode not implemented; set stream=false" }
  else if backend.available = false then
    .error (unavailable "inference backend unavailable (set OLLAMA_HOST)")
  else orServerError do
    let data ← backend.chat model (if messages.truthy then messages else .arr [])
    let message ← member data "message" (.obj [])
    let content ← member message "content" (.str "")
    return .message model (textOf env content)

/-- The text that is embedded: the first element of a list, else the input as text. -/
def embeddedInput (payload : Json.Object) : Json :=
  match field payload "input" .null with
  | .arr [] => .str ""
  | .arr (text :: _) => text
  | value => if value.truthy then .str (textOf env value) else .str ""

def embeddings (payload : Json.Object) : Reply Generated :=
  let model := textOf env (field payload "model" (.str env.defaultEmbedModel))
  if backend.available = false then .error (unavailable "inference backend unavailable")
  else orServerError do
    let data ← backend.embeddings model (embeddedInput env payload)
    let found ← member data "embedding" .null
    let embedding := if found.truthy then found else .arr []
    let dim ← lengthOf embedding
    return .vector model embedding dim

def generate (payload : Json.Object) : Reply Generated :=
  let model := textOf env (field payload "model" (.str env.defaultChatModel))
  let prompt := textOf env (field payload "prompt" (.str ""))
  if backend.available = false then .error (unavailable "inference backend unavailable")
  else orServerError do
    let data ← backend.generate model prompt
    let response ← member data "response" (.str "")
    return .text model (textOf env response)

/-- The answer of a route. -/
def answer (req : InferenceRequest) : Reply Generated :=
  match req.route with
  | .chatCompletions => chatCompletions env backend req.payload
  | .embeddings => embeddings env backend req.payload
  | .generate => generate env backend req.payload

/-- The usage meter for the content. -/
def meter (s : TenantMeters) (w : RequestWorld) (tenant : Option TenantContext) :
    Generated → TenantMeters
  | .message model content => maybeRecordV12Chat s w tenant model content
  | .vector model _ dim => maybeRecordV12Embed s w tenant model dim
  | .text model response => maybeRecordV12Generate s w tenant model response

/-- A request to a route: the content is generated, metered and returned. -/
def serve (s : TenantMeters) (w : RequestWorld) (req : InferenceRequest) :
    TenantMeters × Reply Generated :=
  match answer env backend req with
  | .error error => (s,.error error)
  | .ok generated => (meter s w req.tenant generated,.ok generated)

end Routes
end Arsonist.Inference

/-! Usage of the content that tenants are served. A quota that is exceeded keeps the usage from being
recorded, and not the content from being served. -/
namespace Arsonist.Inference
open Arsonist.Library Arsonist.Identity Arsonist.Billing Arsonist.Gateway

variable (env : InferenceEnv)

/-- A request with all that happens around it, or a change of plans and limits. -/
inductive InferenceEvent
  | request (backend : Backend) (w : RequestWorld) (req : InferenceRequest)
  | subscriptions (registry : Registry) (custom : Table CustomLimits)

def exec (s : TenantMeters) : InferenceEvent → TenantMeters
  | .request backend w req => (serve env backend s w req).1
  | .subscriptions registry custom => { s with registry := registry, custom := custom }

/-- The answer does not depend on the meters. -/
theorem serve_reply (backend : Backend) (s : TenantMeters) (w : RequestWorld)
    (req : InferenceRequest) : (serve env backend s w req).2 = answer env backend req := by
  rw [serve]
  cases answer env backend req with
  | error error => rfl
  | ok generated => rfl

/-- The tokens of the content count if they fit. -/
theorem amount_meter (s : TenantMeters) (w : RequestWorld) (tenant : TenantContext)
    (generated : Generated) :
    (meter s w (some tenant) generated).meters.usage.amount tenant.orgId "tokens" =
      s.meters.usage.amount tenant.orgId "tokens"+
        if tenant.orgId ≠ "" ∧ Fits s w tenant.orgId generated.estimatedTokens then
          generated.estimatedTokens
        else 0 := by
  cases generated with
  | message model content =>
    rw [meter, maybeRecordV12Chat, amount_maybeRecord]
    congr 2
    simp [UsageTracker.amountOf, tokensRow, Generated.estimatedTokens]
  | vector model embedding dim =>
    rw [meter, maybeRecordV12Embed, amount_maybeRecord]
    congr 2
    simp [UsageTracker.amountOf, tokensRow, Generated.estimatedTokens]
  | text model response =>
    rw [meter, maybeRecordV12Generate, amount_maybeRecord]
    congr 2
    simp [UsageTracker.amountOf, tokensRow, Generated.estimatedTokens]

theorem estimatedTokens_pos (generated : Generated) : 0 < generated.estimatedTokens := by
  cases generated with
  | message model content => exact lt_of_lt_of_le one_pos (le_max_left _ _)
  | vector model embedding dim => exact lt_of_lt_of_le one_pos (le_max_left _ _)
  | text model response => exact lt_of_lt_of_le one_pos (le_max_left _ _)

/-- A tenant that is served content has its estimated tokens recorded. -/
def ServedRecorded (s : TenantMeters) : InferenceEvent → Prop
  | .request backend w req =>
    ∀ tenant generated, req.tenant = some tenant →
      (serve env backend s w req).2 = .ok generated →
        (serve env backend s w req).1.meters.usage.amount tenant.orgId "tokens" =
          s.meters.usage.amount tenant.orgId "tokens"+generated.estimatedTokens
  | .subscriptions _ _ => True

/-- The tokens of the content that a tenant is about to be served fit into its quota. -/
def ContentFits (s : TenantMeters) : InferenceEvent → Prop
  | .request backend w req =>
    ∀ tenant generated, req.tenant = some tenant → answer env backend req = .ok generated →
      tenant.orgId ≠ "" ∧ Fits s w tenant.orgId generated.estimatedTokens
  | .subscriptions _ _ => True

theorem servedRecorded_iff (s : TenantMeters) (e : InferenceEvent) :
    ServedRecorded env s e ↔ ContentFits env s e := by
  cases e with
  | subscriptions registry custom => exact Iff.rfl
  | request backend w req =>
    have hstep : ∀ tenant generated, req.tenant = some tenant →
        answer env backend req = .ok generated →
        ((serve env backend s w req).1.meters.usage.amount tenant.orgId "tokens" =
            s.meters.usage.amount tenant.orgId "tokens"+generated.estimatedTokens ↔
          tenant.orgId ≠ "" ∧ Fits s w tenant.orgId generated.estimatedTokens) := by
      intro tenant generated htenant hanswer
      have hpos := estimatedTokens_pos generated
      simp only [serve, hanswer, htenant]
      rw [amount_meter, add_right_inj]
      split_ifs with hfits
      · exact iff_of_true rfl hfits
      · exact iff_of_false hpos.ne hfits
    rw [ServedRecorded, ContentFits]
    constructor
    · intro h tenant generated htenant hanswer
      rw [← hstep tenant generated htenant hanswer]
      exact h tenant generated htenant ((serve_reply env backend s w req).trans hanswer)
    · intro h tenant generated htenant hserved
      have hanswer := (serve_reply env backend s w req).symm.trans hserved
      rw [hstep tenant generated htenant hanswer]
      exact h tenant generated htenant hanswer

/-- Every content that a tenant is served is recorded exactly when its tokens always fit. -/
theorem served_recorded_iff (s : TenantMeters) (events : List InferenceEvent) :
    (∀ p e q, events = p ++ e :: q → ServedRecorded env (run (exec env) s p) e) ↔
      Along (exec env) (ContentFits env) s events := by
  rw [along_iff]
  constructor
  · intro h p e q hevents
    exact (servedRecorded_iff env _ e).mp (h p e q hevents)
  · intro h p e q hevents
    exact (servedRecorded_iff env _ e).mpr (h p e q hevents)

section Exceeded

/-- An organisation with a limit of two tokens for a minute. -/
def twoTokens : TenantMeters :=
  { meters := Meters.empty,
    registry := {},
    custom := Table.empty.put { orgId := "acme", limits := [("tokens_per_minute",2)] } }

def noRedis : RedisReplies := { url := "", ping := false, command := false }

/-- A prompt whose answer has three tokens. -/
def threeTokens : InferenceEvent :=
  .request
    { available := true,
      chat := fun _ _ => none,
      embeddings := fun _ _ => none,
      generate := fun _ _ => some (.obj [("response",.str "twelve chars")]) }
    { now := 0, latencyMs := 5, onGet := noRedis, onIncr := noRedis }
    { route := .generate,
      tenant := some { orgId := "acme" },
      payload := [("prompt",.str "hi")] }

def plainEnv : InferenceEnv :=
  { defaultChatModel := "llama3.2", defaultEmbedModel := "nomic-embed-text",
    repr := fun _ => "" }

/-- The content is served, and its three tokens are recorded nowhere. -/
theorem served_unrecorded :
    answer plainEnv
        { available := true,
          chat := fun _ _ => none,
          embeddings := fun _ _ => none,
          generate := fun _ _ => some (.obj [("response",.str "twelve chars")]) }
        { route := .generate,
          tenant := some { orgId := "acme" },
          payload := [("prompt",.str "hi")] } = .ok (.text "llama3.2" "twelve chars") ∧
      ¬ ServedRecorded plainEnv twoTokens threeTokens := by
  constructor
  · rfl
  · rw [servedRecorded_iff]
    intro h
    obtain ⟨-,hfits⟩ := h { orgId := "acme" } (.text "llama3.2" "twelve chars") rfl rfl
    revert hfits
    decide +kernel

end Exceeded
end Arsonist.Inference
