import Mathlib.Data.Option.Basic
import Mathlib.Tactic

/-! A connection to a database, as one that uses it alone sees it. Statements work on data of the
connection's own, which a commit makes the stored data; closing the connection without a commit
leaves what was stored. -/
namespace Arsonist.Library

/-- The stored data, and those of the transaction if one is open. -/
structure Connection (σ : Type*) where
  stored : σ
  pending : Option σ := none

namespace Connection
variable {σ : Type*} (c : Connection σ)

/-- The data that a statement finds. -/
def current : σ := c.pending.getD c.stored

/-- A statement that changes the data begins a transaction if none is open. If it fails, the
transaction goes on without it. -/
def execute (statement : σ → Option σ) : Connection σ × Bool :=
  ({ c with pending := some ((statement c.current).getD c.current) },
    (statement c.current).isSome)

def commit : Connection σ := { stored := c.current }

/-- What is stored once the connection is closed. -/
def close : σ := c.stored

variable {c} {statement : σ → Option σ}

theorem execute_of_none (h : statement c.current = none) :
    c.execute statement = ({ c with pending := some c.current },false) := by
  rw [execute, h]
  rfl

theorem execute_of_some {s : σ} (h : statement c.current = some s) :
    c.execute statement = ({ c with pending := some s },true) := by
  rw [execute, h]
  rfl

end Connection
end Arsonist.Library
