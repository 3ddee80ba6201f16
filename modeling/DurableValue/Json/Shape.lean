/-
  DurableValue.Json.Shape — reading values of a fixed type.

  Each reader takes the values of its own type and refuses every other with the kind that it found and the type that
  it wanted. A scalar is read past before it is refused; a container is not.
-/
import DurableValue.Json.Reader

namespace DurableValue.Json.Shape

open Reading

/-- Refuses the value that is next. -/
def mismatch {α : Type} (expected : String) : Reading α := do
  let refuse (f : Found) : Reading α := failHere (.wrongType f expected)
  match ← peek with
  | none => failAhead .expectedValue
  | some b =>
    if b = 0x6E then drop; word [0x75, 0x6C, 0x6C]; refuse .null
    else if b = 0x74 then drop; word [0x72, 0x75, 0x65]; refuse (.bool true)
    else if b = 0x66 then drop; word [0x61, 0x6C, 0x73, 0x65]; refuse (.bool false)
    else if b = 0x2D || Decimal.isDigit b then
      if b = 0x2D then drop
      match ← Number.read (b = 0x2D) with
      | .float x => refuse (.float x)
      | .int n => refuse (.int n)
      | _ => failAhead .expectedValue
    else if b = 0x22 then
      drop
      let s ← Literal.read
      refuse (.string s)
    else if b = 0x5B then refuse .array
    else if b = 0x7B then refuse .object
    else failAhead .expectedValue

def start : Reading UInt8 := do
  match ← blanks with
  | none => failAhead .endInValue
  | some b => pure b

def string : Reading String := do
  if (← start) = 0x22 then
    drop
    Literal.read
  else mismatch "a string"

def bool : Reading Bool := do
  let b ← start
  if b = 0x74 then drop; word [0x72, 0x75, 0x65]; pure true
  else if b = 0x66 then drop; word [0x61, 0x6C, 0x73, 0x65]; pure false
  else mismatch "a boolean"

/-- A whole number from `least` up to, not including, `bound`. -/
def integer (expected : String) (least bound : Int) : Reading Int := do
  let b ← start
  if b = 0x2D || Decimal.isDigit b then
    if b = 0x2D then drop
    match ← Number.read (b = 0x2D) with
    | .int n => if least ≤ n && n < bound then pure n else failHere (.wrongValue (.int n) expected)
    | .float x => failHere (.wrongType (.float x) expected)
    | _ => failAhead .expectedValue
  else mismatch expected

def u32 : Reading Int := integer "u32" 0 (Int.pow 2 32)

def u64 : Reading Int := integer "u64" 0 (Int.pow 2 64)

def usize : Reading Int := integer "usize" 0 (Int.pow 2 64)

def i64 : Reading Int := integer "i64" Decimal.signedLeast Decimal.signedBound

def list {α : Type} (item : Reading α) : Reading (List α) := do
  if (← start) = 0x5B then Reader.list item else mismatch "a sequence"

def map {α : Type} (item : Reading α) : Reading (List (String × α)) := do
  if (← start) = 0x7B then Reader.object item else mismatch "a map"

/-- Null, or what `item` reads. -/
def option {α : Type} (item : Reading α) : Reading (Option α) := do
  if (← blanks) = some 0x6E then
    drop
    word [0x75, 0x6C, 0x6C]
    pure none
  else some <$> item

end DurableValue.Json.Shape
