import Arsonist.Gateway.QuotaManager
import Arsonist.Gateway.Auth

/-! Usage of inference requests. It is recorded after the content is generated, if the tokens of the
content still fit into the quota. -/
namespace Arsonist.Gateway
open Arsonist.Library Arsonist.Billing

/-- What happens around a request: the time, how long the content took, and what Redis answers to
the quota check. -/
structure RequestWorld where
  now : ℚ
  latencyMs : ℚ
  onGet : RedisReplies
  onIncr : RedisReplies

/-- `max(1.0, len(text)/4.0)`. -/
def textTokens (text : String) : ℚ := max 1 (text.length/4)

/-- `max(1.0, dim/8.0)`. -/
def vectorTokens (dim : ℕ) : ℚ := max 1 (dim/8)

section Record
variable (s : TenantMeters) (w : RequestWorld) (tenant : Option TenantContext)

/-- The rows are recorded for the organisation of the tenant, once its tokens are consumed. -/
def maybeRecord (tokens : ℚ) (rows : List UsageRow) : TenantMeters :=
  match tenant.map TenantContext.orgId with
  | none => s
  | some orgId =>
    if orgId = "" then s
    else
      let (s,ok,_) := consumeTokens s w.now w.onGet w.onIncr orgId tokens
      if ok = false then s
      else
        let usage := rows.foldl (fun usage row => usage.record { orgId := orgId, row := row })
          s.meters.usage
        { s with meters := { s.meters with usage := usage } }

/-- The row for the tokens of a request. -/
def tokensRow (model kind : String) (tokens : ℚ) : UsageRow :=
  { ts := w.now, metric := "tokens", amount := tokens, unit := "tokens",
    info := [("model",.str model),("kind",.str kind)] }

def maybeRecordV12Chat (model content : String) : TenantMeters :=
  let tokens := textTokens content
  maybeRecord s w tenant tokens
    [tokensRow w model "chat" tokens,
      { ts := w.now, metric := "gpu_proxy_ms", amount := w.latencyMs, unit := "ms",
        info := [("model",.str model)] }]

def maybeRecordV12Embed (model : String) (dim : ℕ) : TenantMeters :=
  let tokens := vectorTokens dim
  maybeRecord s w tenant tokens [tokensRow w model "embed" tokens]

def maybeRecordV12Generate (model text : String) : TenantMeters :=
  let tokens := textTokens text
  maybeRecord s w tenant tokens [tokensRow w model "generate" tokens]

/-- The tokens fit into what is left of the quota of an organisation. -/
def Fits (orgId : String) (tokens : ℚ) : Prop :=
  tokensPerMinute.used s w.now w.onGet orgId+tokens ≤ tokensPerMinute.limit s orgId

instance (orgId : String) (tokens : ℚ) : Decidable (Fits s w orgId tokens) :=
  inferInstanceAs (Decidable (_ ≤ _))

/-- A quota check records nothing as tokens, even where it counts in the process. -/
theorem amount_consumeTokens (orgId : String) (tokens : ℚ) :
    (consumeTokens s w.now w.onGet w.onIncr orgId tokens).1.meters.usage.amount orgId "tokens" =
      s.meters.usage.amount orgId "tokens" := by
  have hkey : tokensPerMinute.key w.now ≠ "tokens" := by
    intro h
    have hlength := congrArg String.length h
    have hmeter : tokensPerMinute.meter.length = 7 := rfl
    have htokens : "tokens".length = 6 := rfl
    rw [Quota.key, String.length_append] at hlength
    omega
  rw [consumeTokens, Quota.consume]
  dsimp only
  split_ifs
  · rw [Meters.usage_getMeter]
  · rw [Meters.amount_incrMeter _ _ _ _ hkey, Meters.usage_getMeter]

/-- What is recorded for a tenant: the rows if its tokens fit, and else nothing. -/
theorem amount_maybeRecord (tenant : TenantContext) (tokens : ℚ) (rows : List UsageRow) :
    (maybeRecord s w (some tenant) tokens rows).meters.usage.amount tenant.orgId "tokens" =
      s.meters.usage.amount tenant.orgId "tokens"+
        if tenant.orgId ≠ "" ∧ Fits s w tenant.orgId tokens then
          UsageTracker.amountOf rows "tokens"
        else 0 := by
  have haccepted : (consumeTokens s w.now w.onGet w.onIncr tenant.orgId tokens).2.1 = true ↔
      Fits s w tenant.orgId tokens := Quota.consume_accepted
  rw [maybeRecord, Option.map_some]
  dsimp only
  by_cases horg : tenant.orgId = ""
  · rw [if_pos horg, if_neg fun h => h.1 horg, add_zero]
  · rw [if_neg horg]
    by_cases hfits : Fits s w tenant.orgId tokens
    · have hok : (consumeTokens s w.now w.onGet w.onIncr tenant.orgId tokens).2.1 ≠ false := by
        simpa using haccepted.mpr hfits
      rw [if_neg hok, if_pos ⟨horg,hfits⟩]
      dsimp only
      rw [UsageLog.amount_foldl_record, amount_consumeTokens]
    · have hrefused : (consumeTokens s w.now w.onGet w.onIncr tenant.orgId tokens).2.1 = false := by
        rw [← Bool.not_eq_true]
        exact fun h => hfits (haccepted.mp h)
      rw [if_pos hrefused, if_neg fun h => hfits h.2, amount_consumeTokens, add_zero]

end Record
end Arsonist.Gateway
