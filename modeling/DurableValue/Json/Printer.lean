/-
  DurableValue.Json.Printer — JSON values as bytes.

  A value is written as a sequence of chunks, in one of two layouts. The compact one has no blanks at all; the pretty
  one puts every item on a line of its own, indented by two spaces a level, and writes `[]` and `{}` closed at once.
  Inside a string only the quote, the backslash and the bytes below 0x20 are escaped.
-/
import DurableValue.Decimal.Shortest
import DurableValue.Json.Value
import DurableValue.Text.Hex

namespace DurableValue.Json

inductive Layout where
  | compact
  | pretty
  deriving DecidableEq, Repr

namespace Printer

def quoteByte : UInt8 := 0x22

def escapeByte (b : UInt8) : Bytes :=
  if b = 0x22 then [0x5C, 0x22]
  else if b = 0x5C then [0x5C, 0x5C]
  else if b = 0x08 then [0x5C, 0x62]
  else if b = 0x0C then [0x5C, 0x66]
  else if b = 0x0A then [0x5C, 0x6E]
  else if b = 0x0D then [0x5C, 0x72]
  else if b = 0x09 then [0x5C, 0x74]
  else if b < 0x20 then [0x5C, 0x75] ++ Text.encode (Text.hex4 b.toNat)
  else [b]

/-- A string with its quotes. -/
def stringBytes (s : String) : Bytes :=
  quoteByte :: ((Text.encode s).flatMap escapeByte ++ [quoteByte])

def newline (depth : Nat) : Bytes := 0x0A :: List.replicate (2 * depth) 0x20

/-- What stands before an item of a container. -/
def itemLead (layout : Layout) (depth : Nat) (first : Bool) : Bytes :=
  (if first then [] else [0x2C]) ++
    match layout with
    | .compact => []
    | .pretty => newline depth

/-- What stands before the closing bracket of a container that is not empty. -/
def closeLead (layout : Layout) (depth : Nat) : Bytes :=
  match layout with
  | .compact => []
  | .pretty => newline depth

/-- The colon between a key and its value. -/
def colon (layout : Layout) : Bytes :=
  match layout with
  | .compact => [0x3A]
  | .pretty => [0x3A, 0x20]

mutual

/-- The chunks of a value that stands at nesting `depth`. -/
def chunks (layout : Layout) (depth : Nat) : Value → List Bytes
  | .null => [Text.encode "null"]
  | .bool true => [Text.encode "true"]
  | .bool false => [Text.encode "false"]
  | .int n => [Decimal.ofInt n]
  | .float x => [x.text]
  | .string s => [stringBytes s]
  | .array [] => [[0x5B], [0x5D]]
  | .array items => [0x5B] :: (itemChunks layout (depth + 1) true items ++ [closeLead layout depth, [0x5D]])
  | .object [] => [[0x7B], [0x7D]]
  | .object members => [0x7B] :: (memberChunks layout (depth + 1) true members ++ [closeLead layout depth, [0x7D]])

def itemChunks (layout : Layout) (depth : Nat) (first : Bool) : List Value → List Bytes
  | [] => []
  | v :: vs => itemLead layout depth first :: (chunks layout depth v ++ itemChunks layout depth false vs)

def memberChunks (layout : Layout) (depth : Nat) (first : Bool) : List (String × Value) → List Bytes
  | [] => []
  | (k, v) :: ms =>
    itemLead layout depth first :: stringBytes k :: colon layout ::
      (chunks layout depth v ++ memberChunks layout depth false ms)

end

end Printer

namespace Value

def chunks (v : Value) (layout : Layout) : List Bytes := Printer.chunks layout 0 v

def bytes (v : Value) (layout : Layout) : Bytes := (v.chunks layout).flatten

def text (v : Value) (layout : Layout) : String := (Text.decode? (v.bytes layout)).getD ""

end Value

end DurableValue.Json
