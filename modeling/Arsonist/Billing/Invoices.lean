import Arsonist.Identity.Registry
import Arsonist.Library.History
import Arsonist.Library.Json
import Arsonist.Scheduler.Weighted

/-! Usage, invoices and subscriptions of organisations. -/
namespace Arsonist.Billing
open Arsonist.Library Arsonist.Identity

structure UsageRow where
  ts : ℚ
  metric : String
  amount : ℚ
  unit : String
  info : Json.Object := []

/-- The rows of an organisation in `_by_org`. -/
structure OrgUsage where
  orgId : String
  rows : List UsageRow

instance : Keyed OrgUsage String where
  key := OrgUsage.orgId

/-- An entry of the totals of an organisation. -/
structure MetricTotal where
  metric : String
  amount : ℚ
  deriving DecidableEq

instance : Keyed MetricTotal String where
  key := MetricTotal.metric

abbrev UsageTracker := Table OrgUsage

namespace UsageTracker
variable (tracker : UsageTracker)

def rows (orgId : String) : List UsageRow := (tracker.get? orgId).elim [] OrgUsage.rows

/-- The cap of the rows of an organisation. -/
def cap : ℤ := 50000

def record (orgId : String) (row : UsageRow) : UsageTracker :=
  tracker.put { orgId := orgId, rows := truncated cap (rows tracker orgId ++ [row]) }

def recent (orgId : String) (limit : ℤ) : List UsageRow := lastSlice limit (rows tracker orgId)

/-- A row is added to the total of its metric. -/
def addRow (t : Table MetricTotal) (row : UsageRow) : Table MetricTotal :=
  t.put { metric := row.metric,
          amount := (t.get? row.metric).elim 0 MetricTotal.amount+row.amount }

def totals (orgId : String) : Table MetricTotal := (rows tracker orgId).foldl addRow Table.empty

theorem rows_record (orgId other : String) (row : UsageRow) :
    rows (record tracker orgId row) other =
      if other = orgId then truncated cap (rows tracker orgId ++ [row]) else rows tracker other := by
  rw [rows, record, Table.get?_put]
  change (if other = orgId then _ else _ : Option OrgUsage).elim [] OrgUsage.rows = _
  split_ifs
  · rfl
  · rfl

end UsageTracker

structure LineItem where
  metric : String
  amount : ℚ
  unitPrice : ℚ
  description : String
  deriving DecidableEq

structure Invoice where
  invoiceId : String
  orgId : String
  period : String
  createdAt : ℚ
  lineItems : List LineItem
  totalUsd : ℚ
  status : String := "draft"
  deriving DecidableEq

instance : Keyed Invoice String where
  key := Invoice.invoiceId

/-- `round(x, 4)`. -/
def round4 (x : ℚ) : ℚ := Scheduler.roundHalfEven (x*10000)/10000

/-- `InvoiceEngine.generate`. The id of the invoice is drawn. -/
def generate (invoices : Table Invoice) (now : ℚ) (invoiceId orgId period : String)
    (lineItems : List LineItem) : Table Invoice × Invoice :=
  let doc : Invoice := {
    invoiceId := invoiceId,
    orgId := orgId,
    period := period,
    createdAt := now,
    lineItems := lineItems,
    totalUsd := round4 (lineItems.map fun x => x.amount*x.unitPrice).sum }
  (invoices.put doc,doc)

/-- The line of an invoice without billable usage. -/
def minimumLine : LineItem :=
  { metric := "minimum", amount := 1, unitPrice := 0, description := "no billable usage" }

/-- The line of a metric, if it has an amount and a price. -/
def lineOf (prices : List (String × ℚ)) (total : MetricTotal) : Option LineItem :=
  let price := (prices.lookup total.metric).getD 0
  if total.amount ≠ 0 ∧ price ≠ 0 then
    some { metric := total.metric,
           amount := total.amount,
           unitPrice := price,
           description := total.metric }
  else none

/-- The lines of an invoice over the usage of an organisation. -/
def usageLines (tracker : UsageTracker) (orgId : String) (prices : List (String × ℚ)) :
    List LineItem :=
  let lines := (UsageTracker.totals tracker orgId).entries.filterMap (lineOf prices)
  if lines = [] then [minimumLine] else lines

def fromUsageSnapshot (invoices : Table Invoice) (tracker : UsageTracker) (now : ℚ)
    (invoiceId orgId period : String) (prices : List (String × ℚ)) : Table Invoice × Invoice :=
  generate invoices now invoiceId orgId period (usageLines tracker orgId prices)

section Subscriptions

/-- `_DEFAULT_LIMITS`, with the limits of an unknown plan. -/
def defaultLimits (plan : String) : List (String × ℚ) :=
  if plan = "pro" then
    [("requests_per_sec",50),("tokens_per_minute",500000),("gpu_seconds_per_day",36000),
      ("max_concurrency",32),("storage_gb",100)]
  else if plan = "enterprise" then
    [("requests_per_sec",500),("tokens_per_minute",5000000),("gpu_seconds_per_day",864000),
      ("max_concurrency",256),("storage_gb",5000)]
  else
    [("requests_per_sec",5),("tokens_per_minute",20000),("gpu_seconds_per_day",60),
      ("max_concurrency",2),("storage_gb",1)]

/-- The entry of an organisation in `_custom`. -/
structure CustomLimits where
  orgId : String
  limits : List (String × ℚ)

instance : Keyed CustomLimits String where
  key := CustomLimits.orgId

structure Subscription where
  orgId : String
  plan : String
  limits : List (String × ℚ)

/-- `limits.update(custom)`: the custom value of a limit counts, and others are added. -/
def updated (limits custom : List (String × ℚ)) : List (String × ℚ) :=
  limits.map (fun l => (l.1,(custom.lookup l.1).getD l.2)) ++
    custom.filter fun c => (limits.lookup c.1).isNone

def getSubscription (custom : Table CustomLimits) (r : Registry) (orgId : String) : Subscription :=
  let plan := (r.getOrganization orgId).elim "free" Organization.plan
  { orgId := orgId,
    plan := plan,
    limits := updated (defaultLimits plan) ((custom.get? orgId).elim [] CustomLimits.limits) }

end Subscriptions

/-- The amounts of a metric in the rows of an organisation. -/
def UsageTracker.amountOf (rows : List UsageRow) (metric : String) : ℚ :=
  ((rows.filter fun row => row.metric = metric).map UsageRow.amount).sum

/-- A total is the sum of the amounts that were recorded for the metric. -/
theorem get?_totals (tracker : UsageTracker) (orgId metric : String) :
    ((UsageTracker.totals tracker orgId).get? metric).elim 0 MetricTotal.amount =
      UsageTracker.amountOf (UsageTracker.rows tracker orgId) metric := by
  rw [UsageTracker.totals]
  induction UsageTracker.rows tracker orgId using List.reverseRecOn with
  | nil => rfl
  | append_singleton rows row ih =>
    rw [List.foldl_append, List.foldl_cons, List.foldl_nil, UsageTracker.addRow, Table.get?_put,
      UsageTracker.amountOf, List.filter_append, List.map_append, List.sum_append]
    change (if metric = row.metric then _ else _ : Option MetricTotal).elim 0 MetricTotal.amount = _
    split_ifs with h
    · subst h
      simp [ih, UsageTracker.amountOf]
    · rw [ih, List.filter_cons_of_neg (by simpa using Ne.symm h)]
      simp [UsageTracker.amountOf]

/-- A line bills the amount that was recorded for its metric, or nothing was billable. -/
theorem of_mem_usageLines {tracker : UsageTracker} {orgId : String} {prices : List (String × ℚ)}
    {line : LineItem} (h : line ∈ usageLines tracker orgId prices) :
    line = minimumLine ∨
      line.amount = UsageTracker.amountOf (UsageTracker.rows tracker orgId) line.metric := by
  rw [usageLines] at h
  split_ifs at h
  · exact Or.inl (List.mem_singleton.mp h)
  · refine Or.inr ?_
    obtain ⟨total,htotal,hline⟩ := List.mem_filterMap.mp h
    rw [lineOf] at hline
    split_ifs at hline
    obtain rfl := Option.some.inj hline
    have hget : (UsageTracker.totals tracker orgId).get? total.metric = some total :=
      Table.get?_of_mem htotal
    rw [← get?_totals, hget]
    rfl

end Arsonist.Billing
