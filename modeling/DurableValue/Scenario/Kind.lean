/-
  DurableValue.Scenario.Kind — the kinds of value that the cells of a session can hold, each with its codec and its
  view as a JSON value.
-/
import DurableValue.Codec.Settings
import DurableValue.Scenario.Edit

namespace DurableValue.Scenario

open Cell (Outcome)
open Json (Value Layout)

structure Kind (V : Type) where
  /-- The codec in a layout, with a default if one is given. -/
  codec : Layout → Option V → Codec V
  /-- The value as edits and tests see it, members in the order of their keys. -/
  toValue : V → Value
  ofValue : Value → Option V
  /-- The value as it is told to people. -/
  shown : V → Value
  same : V → V → Bool

namespace Kind

variable {V : Type}

/-- Applies an edit to the view of a value. -/
def edit (k : Kind V) (e : Edit) (v : V) : Outcome V :=
  match e.apply (k.toValue v) with
  | .failed reason => .failed reason
  | .panicked payload => .panicked payload
  | .returned w =>
    match k.ofValue w with
    | some v => .returned v
    | none => .failed "wrong type"

def test (k : Kind V) (c : Condition) (v : V) : Outcome Bool := c.test (k.toValue v)

end Kind

def wholeNumber? : Value → Option Int
  | .int n => if Decimal.fitsSigned n then some n else none
  | _ => none

def text? : Value → Option String
  | .string s => some s
  | _ => none

def integers : Kind Int where
  codec _ default := Codec.decimal (default.getD 0)
  toValue := .int
  ofValue := wholeNumber?
  shown := .int
  same a b := a = b

def texts : Kind String where
  codec _ default := Codec.text (default.getD "")
  toValue := .string
  ofValue := text?
  shown := .string
  same a b := a = b

def documents : Kind Value where
  codec layout default := Codec.json.codec layout (default.getD Codec.json.default)
  toValue v := v
  ofValue := some
  shown v := v
  same := Value.same

def settings : Kind Settings where
  codec layout default := Settings.format.codec layout (default.getD Settings.format.default)
  toValue s := .object [("font_size", .int s.fontSize), ("theme", .string s.theme)]
  ofValue v := (Settings.format.parse (v.text .compact)).toOption
  shown := Settings.format.toValue
  same a b := a = b

end DurableValue.Scenario
