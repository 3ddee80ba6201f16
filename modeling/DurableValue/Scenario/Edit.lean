/-
  DurableValue.Scenario.Edit — the transforms and tests of scripted sessions, written on JSON values whatever a cell
  holds.

  An edit that does not suit the value fails with a text; so does an edit whose result the cell cannot hold. Code that
  is scripted to fail returns a text or panics.
-/
import DurableValue.Cell.Setup

namespace DurableValue.Scenario

open Cell (Outcome)
open Json (Value)

/-- A failure laid down in a script; a panic may carry something that is not text. -/
inductive Failing where
  | fails (reason : String)
  | panics (payload : Option String)
  deriving DecidableEq, Repr

def Failing.outcome {α : Type} : Failing → Outcome α
  | fails reason => .failed reason
  | panics payload => .panicked payload

inductive Edit where
  | same
  | set (v : Value)
  | add (n : Int)
  | push (v : Value)
  | put (key : String) (v : Value)
  | remove (key : String)
  | append (text : String)
  | wrap (times : Nat)
  | failing (f : Failing)
  deriving Repr

namespace Edit

/-- A value inside so many lists of one item. -/
def wrapped (v : Value) : Nat → Value
  | 0 => v
  | times + 1 => .array [wrapped v times]

def apply (e : Edit) (v : Value) : Outcome Value :=
  match e, v with
  | same, v => .returned v
  | set w, _ => .returned w
  | add n, .int m =>
    if !Decimal.fitsSigned m then .failed "not an integer"
    else if Decimal.fitsSigned (m + n) then .returned (.int (m + n))
    else .failed "overflow"
  | add _, _ => .failed "not an integer"
  | push w, .array items => .returned (.array (items ++ [w]))
  | push _, _ => .failed "not an array"
  | put key w, .object members => .returned (.object (Value.insert key w members))
  | put _ _, _ => .failed "not an object"
  | remove key, .object members => .returned (.object (members.filter fun m => m.1 != key))
  | remove _, _ => .failed "not an object"
  | append s, .string t => .returned (.string (t ++ s))
  | append _, _ => .failed "not a string"
  | wrap times, v => .returned (wrapped v times)
  | failing f, _ => f.outcome

end Edit

/-- What a migration asks of a value. -/
inductive Condition where
  | always
  | never
  | below (n : Int)
  | missing (key : String)
  | equals (v : Value)
  | failing (f : Failing)
  deriving Repr

namespace Condition

def test (c : Condition) (v : Value) : Outcome Bool :=
  match c, v with
  | always, _ => .returned true
  | never, _ => .returned false
  | below n, .int m => .returned (Decimal.fitsSigned m && m < n)
  | below _, _ => .returned false
  | missing key, .object members => .returned (members.lookup key).isNone
  | missing _, _ => .returned true
  | equals w, v => .returned (v.same w)
  | failing f, _ => f.outcome

end Condition

end DurableValue.Scenario
