import Arsonist.Billing.Invoices
import Arsonist.Library.Runs
import Arsonist.Library.Sums

/-! Usage totals over histories of any length. The tracker keeps the last 50,000 rows of an
organisation; its totals, and the invoices over them, are exact for these rows. -/
namespace Arsonist.Billing
open Arsonist.Library

/-- A call of `record`. -/
structure UsageRecord where
  orgId : String
  row : UsageRow

namespace UsageTracker

/-- The tracker after calls for any organisations. -/
def recordAll (records : List UsageRecord) : UsageTracker :=
  run (fun tracker r => record tracker r.orgId r.row) Table.empty records

/-- The rows that were recorded for an organisation. -/
def recordedFor (records : List UsageRecord) (orgId : String) : List UsageRow :=
  (records.filter fun r => r.orgId = orgId).map UsageRecord.row

theorem recordedFor_concat (records : List UsageRecord) (r : UsageRecord) (orgId : String) :
    recordedFor (records ++ [r]) orgId =
      recordedFor records orgId ++ if orgId = r.orgId then [r.row] else [] := by
  rw [recordedFor, List.filter_append, List.map_append]
  by_cases h : orgId = r.orgId
  · simp [recordedFor, h]
  · simp [recordedFor, h, Ne.symm h]

/-- The tracker keeps the last rows of an organisation. -/
def Keeps (tracker : UsageTracker) (records : List UsageRecord) : Prop :=
  ∀ orgId, rows tracker orgId = (recordedFor records orgId).rtake 50000

theorem Keeps.empty : Keeps Table.empty [] := fun _ => (List.rtake_nil 50000).symm

theorem Keeps.record {tracker : UsageTracker} {records : List UsageRecord}
    (h : Keeps tracker records) (r : UsageRecord) :
    Keeps (record tracker r.orgId r.row) (records ++ [r]) := by
  intro orgId
  rw [rows_record, recordedFor_concat]
  split_ifs with hsame
  · have hcut := truncated_eq_rtake (n := 50000) (by omega) (rows tracker r.orgId ++ [r.row])
    subst hsame
    exact hcut.trans (by rw [h r.orgId, rtake_rtake_append])
  · rw [List.append_nil]
    exact h orgId

theorem keeps_recordAll (records : List UsageRecord) : Keeps (recordAll records) records := by
  induction records using List.reverseRecOn with
  | nil => exact Keeps.empty
  | append_singleton records r ih =>
    rw [recordAll, run_concat]
    exact ih.record r

theorem amountOf_append (rows rows' : List UsageRow) (metric : String) :
    amountOf (rows ++ rows') metric = amountOf rows metric+amountOf rows' metric := by
  rw [amountOf, List.filter_append, List.map_append, List.sum_append]
  rfl

theorem amountOf_singleton (row : UsageRow) (metric : String) :
    amountOf [row] metric = if row.metric = metric then row.amount else 0 := by
  by_cases h : row.metric = metric <;> simp [amountOf, h]

end UsageTracker

/-- A tracker with the calls of `record` that made it what it is, which no call reads. -/
structure UsageLog where
  tracker : UsageTracker
  recorded : List UsageRecord
  keeps : tracker.Keeps recorded

namespace UsageLog

def empty : UsageLog := { tracker := Table.empty, recorded := [], keeps := UsageTracker.Keeps.empty }

def record (u : UsageLog) (r : UsageRecord) : UsageLog :=
  { tracker := UsageTracker.record u.tracker r.orgId r.row,
    recorded := u.recorded ++ [r],
    keeps := u.keeps.record r }

/-- The amount that was recorded for a metric, whether the tracker still keeps it or not. -/
def amount (u : UsageLog) (orgId metric : String) : ℚ :=
  UsageTracker.amountOf (UsageTracker.recordedFor u.recorded orgId) metric

theorem amount_record (u : UsageLog) (r : UsageRecord) (orgId metric : String) :
    (u.record r).amount orgId metric =
      u.amount orgId metric+
        if r.orgId = orgId ∧ r.row.metric = metric then r.row.amount else 0 := by
  rw [amount, record, UsageTracker.recordedFor_concat, UsageTracker.amountOf_append]
  congr 1
  by_cases horg : orgId = r.orgId
  · rw [if_pos horg, UsageTracker.amountOf_singleton]
    simp only [horg, true_and]
  · rw [if_neg horg, if_neg fun h => horg h.1.symm]
    rfl

/-- Rows that are recorded one after the other. -/
theorem amount_foldl_record (u : UsageLog) (orgId metric : String) (rows : List UsageRow) :
    (rows.foldl (fun u row => u.record { orgId := orgId, row := row }) u).amount orgId metric =
      u.amount orgId metric+UsageTracker.amountOf rows metric := by
  induction rows generalizing u with
  | nil => exact (add_zero _).symm
  | cons row rows ih =>
    have hrow : UsageTracker.amountOf (row :: rows) metric =
        UsageTracker.amountOf [row] metric+UsageTracker.amountOf rows metric :=
      UsageTracker.amountOf_append [row] rows metric
    rw [List.foldl_cons, ih, amount_record, hrow, UsageTracker.amountOf_singleton]
    simp only [true_and]
    ring

end UsageLog

namespace UsageTracker

/-- The totals have the metrics of the rows. -/
theorem get?_totals_isSome (tracker : UsageTracker) (orgId metric : String) :
    ((totals tracker orgId).get? metric).isSome = true ↔
      ∃ row ∈ rows tracker orgId, row.metric = metric := by
  rw [totals]
  induction rows tracker orgId using List.reverseRecOn with
  | nil => simp
  | append_singleton rows row ih =>
    rw [List.foldl_append, List.foldl_cons, List.foldl_nil, addRow, Table.get?_put]
    change (if metric = row.metric then _ else _ : Option MetricTotal).isSome = true ↔ _
    split_ifs with hmetric
    · exact iff_of_true rfl ⟨row,by simp,hmetric.symm⟩
    · simp [ih, or_and_right, exists_or, Ne.symm hmetric]

/-- An entry of the totals is the sum of the amounts of its metric. -/
theorem get?_totals_of_mem {tracker : UsageTracker} {orgId metric : String}
    (h : ∃ row ∈ rows tracker orgId, row.metric = metric) :
    (totals tracker orgId).get? metric =
      some { metric := metric, amount := amountOf (rows tracker orgId) metric } := by
  have hamount := get?_totals tracker orgId metric
  obtain ⟨total,htotal⟩ := Option.isSome_iff_exists.mp ((get?_totals_isSome _ _ _).mpr h)
  have hkey : total.metric = metric := Table.key_of_get? htotal
  rw [htotal, Option.elim_some] at hamount
  rw [htotal, ← hamount, ← hkey]

/-- The totals, weighted by a value of each metric, are the amounts of the rows so weighted. -/
theorem sum_totals (tracker : UsageTracker) (orgId : String) (f : String → ℚ) :
    (totals tracker orgId).sum (fun t => t.amount*f t.metric) =
      ((rows tracker orgId).map fun row => row.amount*f row.metric).sum := by
  rw [totals]
  induction rows tracker orgId using List.reverseRecOn with
  | nil => rfl
  | append_singleton rows row ih =>
    rw [List.foldl_append, List.foldl_cons, List.foldl_nil, addRow, Table.sum_put, ih,
      List.map_append, List.sum_append, List.map_singleton, List.sum_singleton]
    change _-((rows.foldl addRow Table.empty).get? row.metric).elim 0 _+_ = _
    cases hget : (rows.foldl addRow Table.empty).get? row.metric with
    | none => simp
    | some total =>
      have hmetric : total.metric = row.metric := Table.key_of_get? hget
      simp only [Option.elim_some, hmetric]
      ring

end UsageTracker

section Invoices
variable (prices : List (String × ℚ))

/-- `prices.get(metric, 0.0)`. -/
def priceOf (metric : String) : ℚ := (prices.lookup metric).getD 0

/-- The quantity of a metric on the lines of an invoice that have a price. -/
def billed (lines : List LineItem) (metric : String) : ℚ :=
  ((lines.filter fun line => line.metric = metric ∧ line.unitPrice ≠ 0).map LineItem.amount).sum

theorem billed_cons (line : LineItem) (lines : List LineItem) (metric : String) :
    billed (line :: lines) metric =
      (if line.metric = metric ∧ line.unitPrice ≠ 0 then line.amount else 0)+
        billed lines metric := by
  by_cases h : line.metric = metric ∧ line.unitPrice ≠ 0
  · simp [billed, h]
  · simp only [billed, List.filter_cons, decide_eq_true_eq, if_neg h, zero_add]

theorem lineOf_eq (t : MetricTotal) :
    lineOf prices t =
      if t.amount ≠ 0 ∧ priceOf prices t.metric ≠ 0 then
        some { metric := t.metric,
               amount := t.amount,
               unitPrice := priceOf prices t.metric,
               description := t.metric }
      else none := rfl

theorem billed_filterMap (ts : List MetricTotal) (hn : (ts.map MetricTotal.metric).Nodup)
    (metric : String) :
    billed (ts.filterMap (lineOf prices)) metric =
      if priceOf prices metric ≠ 0 then
        (ts.find? fun t => t.metric = metric).elim 0 MetricTotal.amount
      else 0 := by
  induction ts with
  | nil => simp [billed]
  | cons t ts ih =>
    obtain ⟨ht,hts⟩ := List.nodup_cons.mp hn
    specialize ih hts
    rw [List.filterMap_cons, lineOf_eq]
    by_cases hmetric : t.metric = metric
    · subst hmetric
      have hnone : ts.find? (fun u => decide (u.metric = t.metric)) = none := by
        rw [List.find?_eq_none]
        intro u hu hut
        exact ht (List.mem_map.mpr ⟨u,hu,of_decide_eq_true hut⟩)
      rw [hnone, Option.elim_none, ite_self] at ih
      rw [List.find?_cons_of_pos (by simp)]
      by_cases hline : t.amount ≠ 0 ∧ priceOf prices t.metric ≠ 0
      · simp only [if_pos hline, billed_cons, ih, Option.elim_some]
        rw [if_pos ⟨trivial,hline.2⟩, if_pos hline.2, add_zero]
      · simp only [if_neg hline, ih, Option.elim_some]
        split_ifs with hprice
        · by_contra hamount
          exact hline ⟨Ne.symm hamount,hprice⟩
        · rfl
    · rw [List.find?_cons_of_neg (by simpa using hmetric)]
      by_cases hline : t.amount ≠ 0 ∧ priceOf prices t.metric ≠ 0
      · simp only [if_pos hline, billed_cons, hmetric, false_and, if_false, zero_add]
        exact ih
      · simp only [if_neg hline]
        exact ih

/-- The lines of an invoice, of which the minimum line has no price. -/
theorem usageLines_eq (tracker : UsageTracker) (orgId : String) :
    usageLines tracker orgId prices =
        (UsageTracker.totals tracker orgId).entries.filterMap (lineOf prices) ∨
      (UsageTracker.totals tracker orgId).entries.filterMap (lineOf prices) = [] ∧
        usageLines tracker orgId prices = [minimumLine] := by
  by_cases hempty : (UsageTracker.totals tracker orgId).entries.filterMap (lineOf prices) = []
  · exact Or.inr ⟨hempty,if_pos hempty⟩
  · exact Or.inl (if_neg hempty)

/-- An invoice bills the kept total of each metric with a price. -/
theorem billed_usageLines (tracker : UsageTracker) (orgId metric : String) :
    billed (usageLines tracker orgId prices) metric =
      if priceOf prices metric ≠ 0 then
        UsageTracker.amountOf (UsageTracker.rows tracker orgId) metric
      else 0 := by
  have hlines := billed_filterMap prices (UsageTracker.totals tracker orgId).entries
    (UsageTracker.totals tracker orgId).nodup metric
  rw [← get?_totals]
  refine Eq.trans ?_ hlines
  obtain h | ⟨hempty,h⟩ := usageLines_eq prices tracker orgId
  · rw [h]
  · rw [h, hempty]
    simp [billed, minimumLine]

/-- The lines are worth the kept rows. -/
theorem sum_usageLines (tracker : UsageTracker) (orgId : String) :
    ((usageLines tracker orgId prices).map fun x => x.amount*x.unitPrice).sum =
      ((UsageTracker.rows tracker orgId).map fun row => row.amount*priceOf prices row.metric).sum
    := by
  have hworth : ∀ ts : List MetricTotal,
      ((ts.filterMap (lineOf prices)).map fun x => x.amount*x.unitPrice).sum =
        (ts.map fun t => t.amount*priceOf prices t.metric).sum := by
    intro ts
    induction ts with
    | nil => rfl
    | cons t ts ih =>
      rw [List.filterMap_cons, lineOf_eq, List.map_cons, List.sum_cons]
      by_cases hline : t.amount ≠ 0 ∧ priceOf prices t.metric ≠ 0
      · simp only [if_pos hline, List.map_cons, List.sum_cons, ih]
      · have hzero : t.amount*priceOf prices t.metric = 0 := by
          rw [not_and_or, not_not, not_not] at hline
          exact mul_eq_zero.mpr hline
        simp only [if_neg hline, ih, hzero, zero_add]
  rw [← UsageTracker.sum_totals, Table.sum, ← hworth]
  obtain h | ⟨hempty,h⟩ := usageLines_eq prices tracker orgId
  · rw [h]
  · rw [h, hempty]
    simp [minimumLine]

/-- What the tracker counts and an invoice bills, after any calls: the last 50,000 rows that were
recorded for the organisation. -/
theorem totals_of_last_rows (records : List UsageRecord) (orgId : String)
    (invoices : Table Invoice) (now : ℚ) (invoiceId period : String) :
    let rows := (UsageTracker.recordedFor records orgId).rtake 50000
    let tracker := UsageTracker.recordAll records
    let invoice := (fromUsageSnapshot invoices tracker now invoiceId orgId period prices).2
    (∀ metric, (UsageTracker.totals tracker orgId).get? metric =
      if ∃ row ∈ rows, row.metric = metric then
        some { metric := metric, amount := UsageTracker.amountOf rows metric }
      else none) ∧
    (∀ metric, billed invoice.lineItems metric =
      if priceOf prices metric ≠ 0 then UsageTracker.amountOf rows metric else 0) ∧
    invoice.totalUsd = round4 (rows.map fun row => row.amount*priceOf prices row.metric).sum := by
  intro rows tracker invoice
  have hrows : UsageTracker.rows tracker orgId = rows := UsageTracker.keeps_recordAll records orgId
  refine ⟨fun metric => ?_,fun metric => ?_,?_⟩
  · rw [← hrows]
    split_ifs with h
    · exact UsageTracker.get?_totals_of_mem h
    · rw [← Option.not_isSome_iff_eq_none, UsageTracker.get?_totals_isSome]
      exact h
  · rw [← hrows]
    exact billed_usageLines prices tracker orgId metric
  · rw [← hrows, ← sum_usageLines]
    rfl

section Long

/-- One token for the organisation. -/
def oneToken : UsageRecord :=
  { orgId := "acme",
    row := { ts := 0, metric := "tokens", amount := 1, unit := "count" } }

theorem amountOf_replicate (n : ℕ) :
    UsageTracker.amountOf (List.replicate n oneToken.row) "tokens" = n := by
  rw [UsageTracker.amountOf, List.filter_replicate, if_pos (by decide), List.map_replicate,
    List.sum_replicate]
  simp [oneToken]

/-- The first of 50,001 tokens is lost. -/
theorem totals_of_long_history :
    ((UsageTracker.totals (UsageTracker.recordAll (List.replicate 50001 oneToken))
      "acme").get? "tokens").elim 0 MetricTotal.amount = 50000 ∧
    UsageTracker.amountOf
      (UsageTracker.recordedFor (List.replicate 50001 oneToken) "acme") "tokens" = 50001 := by
  have hrecorded : UsageTracker.recordedFor (List.replicate 50001 oneToken) "acme" =
      List.replicate 50001 oneToken.row := by
    rw [UsageTracker.recordedFor, List.filter_replicate, if_pos (by decide), List.map_replicate]
  have hrows := UsageTracker.keeps_recordAll (List.replicate 50001 oneToken) "acme"
  rw [hrecorded, List.rtake, List.length_replicate, List.drop_replicate] at hrows
  constructor
  · rw [get?_totals, hrows, amountOf_replicate]
    norm_num
  · rw [hrecorded, amountOf_replicate]
    norm_num

end Long
end Invoices
end Arsonist.Billing

/-! What the invoices of an organisation bill together. Each invoice bills all usage that the tracker
keeps: the period is printed on it, but selects nothing. -/
namespace Arsonist.Billing
open Arsonist.Library

/-- The usage and the invoices, with those generated so far, which no call reads. -/
structure BillingState where
  usage : UsageLog
  invoices : Table Invoice
  generated : List Invoice

inductive BillingEvent
  | record (r : UsageRecord)
  | invoice (now : ℚ) (invoiceId orgId period : String) (prices : List (String × ℚ))

namespace BillingState

def start : BillingState := { usage := UsageLog.empty, invoices := Table.empty, generated := [] }

def exec (s : BillingState) : BillingEvent → BillingState
  | .record r => { s with usage := s.usage.record r }
  | .invoice now invoiceId orgId period prices =>
    let (invoices,doc) :=
      fromUsageSnapshot s.invoices s.usage.tracker now invoiceId orgId period prices
    { s with invoices := invoices, generated := s.generated ++ [doc] }

variable (s : BillingState) (orgId metric : String)

/-- The quantity of a metric on all invoices, where it has a price. -/
def billedAmount : ℚ :=
  ((s.generated.filter fun doc => doc.orgId = orgId).map fun doc => billed doc.lineItems metric).sum

/-- The amount of a metric in the rows that the tracker keeps no longer. -/
def droppedAmount : ℚ :=
  UsageTracker.amountOf ((UsageTracker.recordedFor s.usage.recorded orgId).rdrop 50000) metric

def NotOverbilled : Prop := s.billedAmount orgId metric ≤ s.usage.amount orgId metric

/-- An invoice comes when nothing that the tracker still keeps was billed, and a correction takes
back what was not billed. -/
def BillsNew : BillingEvent → Prop
  | .record r => r.orgId = orgId → r.row.metric = metric → r.row.amount < 0 →
      s.billedAmount orgId metric ≤ s.usage.amount orgId metric+r.row.amount
  | .invoice _ _ other _ prices => other = orgId → priceOf prices metric ≠ 0 →
      s.billedAmount orgId metric ≤ s.droppedAmount orgId metric

variable {s orgId metric}

/-- What was recorded is dropped or kept. -/
theorem amount_eq (s : BillingState) (orgId metric : String) :
    s.usage.amount orgId metric =
      s.droppedAmount orgId metric+
        UsageTracker.amountOf (UsageTracker.rows s.usage.tracker orgId) metric := by
  rw [s.usage.keeps orgId, droppedAmount, ← UsageTracker.amountOf_append, List.rdrop, List.rtake,
    List.take_append_drop]
  rfl

theorem billedAmount_invoice (now : ℚ) (invoiceId other period : String)
    (prices : List (String × ℚ)) :
    (s.exec (.invoice now invoiceId other period prices)).billedAmount orgId metric =
      s.billedAmount orgId metric+
        if other = orgId ∧ priceOf prices metric ≠ 0 then
          UsageTracker.amountOf (UsageTracker.rows s.usage.tracker orgId) metric
        else 0 := by
  have hlines := billed_usageLines prices s.usage.tracker orgId metric
  rw [billedAmount, exec]
  dsimp only [fromUsageSnapshot, generate]
  rw [List.filter_append, List.map_append, List.sum_append]
  congr 1
  by_cases horg : other = orgId
  · subst horg
    rw [List.filter_cons_of_pos (by simp), List.filter_nil, List.map_singleton, List.sum_singleton,
      hlines]
    simp
  · rw [List.filter_cons_of_neg (by simpa using horg), if_neg fun h => horg h.1]
    rfl

/-- One call keeps the bound exactly when it bills new usage. -/
theorem notOverbilled_step (e : BillingEvent) (h : s.NotOverbilled orgId metric) :
    (s.exec e).NotOverbilled orgId metric ↔ s.BillsNew orgId metric e := by
  rw [NotOverbilled] at h ⊢
  cases e with
  | record r =>
    change s.billedAmount orgId metric ≤ _ ↔ _
    rw [exec, UsageLog.amount_record, BillsNew]
    by_cases hrow : r.orgId = orgId ∧ r.row.metric = metric
    · rw [if_pos hrow]
      constructor
      · exact fun hle _ _ _ => hle
      · intro hle
        by_cases hneg : r.row.amount < 0
        · exact hle hrow.1 hrow.2 hneg
        · linarith
    · rw [if_neg hrow, add_zero]
      exact iff_of_true h fun horg hmetric => absurd ⟨horg,hmetric⟩ hrow
  | invoice now invoiceId other period prices =>
    change _ ≤ s.usage.amount orgId metric ↔ _
    rw [billedAmount_invoice, amount_eq, BillsNew]
    by_cases hbills : other = orgId ∧ priceOf prices metric ≠ 0
    · rw [if_pos hbills, add_le_add_iff_right]
      exact ⟨fun hle _ _ => hle,fun hle => hle hbills.1 hbills.2⟩
    · rw [if_neg hbills, add_zero, ← amount_eq]
      exact iff_of_true h fun horg hprice => absurd ⟨horg,hprice⟩ hbills

/-- The invoices of an organisation never bill more of a metric than was recorded for it exactly
when each of them bills new usage. -/
theorem notOverbilled_iff (orgId metric : String) (events : List BillingEvent) :
    (∀ p q, events = p ++ q → (run exec start p).NotOverbilled orgId metric) ↔
      Along exec (fun s e => s.BillsNew orgId metric e) start events := by
  have hstart : start.NotOverbilled orgId metric := by
    simp [NotOverbilled, billedAmount, UsageLog.amount, start, UsageLog.empty,
      UsageTracker.recordedFor, UsageTracker.amountOf]
  refine (always_iff (P := fun s : BillingState => s.NotOverbilled orgId metric) hstart events).trans
    ?_
  refine along_congr (I := fun s : BillingState => s.NotOverbilled orgId metric) ?_ ?_ hstart
  · exact fun s e hnext _ => hnext
  · exact fun s e h => notOverbilled_step e h

/-- Five tokens are recorded, and invoiced for two periods. -/
def twoPeriods : List BillingEvent :=
  [.record { orgId := "acme",
             row := { ts := 0, metric := "tokens", amount := 5, unit := "count" } },
    .invoice 1 "inv_1" "acme" "2026-01" [("tokens",1)],
    .invoice 2 "inv_2" "acme" "2026-02" [("tokens",1)]]

/-- The five tokens are billed twice. -/
theorem overbilled_twoPeriods :
    (run exec start twoPeriods).usage.amount "acme" "tokens" = 5 ∧
      (run exec start twoPeriods).billedAmount "acme" "tokens" = 10 := by
  decide +kernel

end BillingState
end Arsonist.Billing
