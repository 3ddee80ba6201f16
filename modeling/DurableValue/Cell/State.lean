/-
  DurableValue.Cell.State — the states of a cell: the one its worker keeps, and the one it shows.
-/
import DurableValue.Cell.Error

namespace DurableValue.Cell

inductive State (V : Type) where
  | uninitialized
  | ready (value : V) (version : Nat)
  | final (terminal : Error)

/-- What anyone may see of a cell's state. -/
inductive Status where
  | uninitialized
  | initializing
  | ready (version : Nat)
  | final (code : Error.Code)
  | closed
  deriving DecidableEq, Repr, Inhabited

/-- The status that shows a state; a final one shows the code of its cause. -/
def State.status {V : Type} : State V → Status
  | uninitialized => .uninitialized
  | ready _ version => .ready version
  | final terminal => .final ((terminal.cause.map Error.code).getD terminal.code)

end DurableValue.Cell
