import Arsonist.Library.History
import Arsonist.Library.Json

/-! The audit log, in memory. A row may say which organisation it is about. -/
namespace Arsonist.Audit
open Arsonist.Library

/-- A row: its type, its `org_id` if it is given one, and its other fields. -/
structure AuditRow where
  ts : ℚ
  type : String
  orgId : Option String := none
  fields : Json.Object := []

/-- `max_memory`. -/
def maxMemory : ℤ := 10000

abbrev AuditLog := List AuditRow

namespace AuditLog
variable (log : AuditLog)

def append (row : AuditRow) : AuditLog := truncated maxMemory (log ++ [row])

/-- The rows about an organisation; without one, all rows. -/
def query (orgId : Option String) (limit : ℤ) : List AuditRow :=
  lastSlice limit (match orgId.filter (· ≠ "") with
    | some orgId => log.filter fun row => row.orgId = some orgId
    | none => log)

/-- A query for an organisation shows rows of the log, and those about it only. -/
theorem of_mem_query {orgId : String} (hne : orgId ≠ "") {limit : ℤ} {row : AuditRow}
    (h : row ∈ log.query (some orgId) limit) : row ∈ log ∧ row.orgId = some orgId := by
  rw [query, Option.filter_some_pos (by simpa using hne)] at h
  dsimp only at h
  have hmem := mem_of_mem_lastSlice h
  rw [List.mem_filter] at hmem
  exact ⟨hmem.1,of_decide_eq_true hmem.2⟩

end AuditLog
end Arsonist.Audit
