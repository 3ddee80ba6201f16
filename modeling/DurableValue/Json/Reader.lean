/-
  DurableValue.Json.Reader — reading JSON documents.

  Containers may be nested up to 127 levels. The items of a list and the members of an object are read by one loop
  each, which does not know what it reads; the loops end because every round takes a byte. A document is one value
  with nothing but blanks behind it.
-/
import DurableValue.Json.Literal
import DurableValue.Json.Number

namespace DurableValue.Json

open Reading

namespace Reader

/-- The levels that a document may use, counting the one that is refused. -/
def depthLimit : Nat := 128

/-! ## Lists and objects -/

/-- Whether another item follows in a list. -/
def anotherItem (first : Bool) : Reading Bool := do
  match ← blanks with
  | none => failAhead .endInList
  | some 0x5D => pure false
  | some b =>
    if first then pure true
    else if b = 0x2C then
      drop
      match ← blanks with
      | none => failAhead .endInValue
      | some 0x5D => failAhead .trailingComma
      | some _ => pure true
    else failAhead .expectedCommaOrBracket

/-- Whether another key follows in an object. -/
def anotherKey (first : Bool) : Reading Bool := do
  match ← blanks with
  | none => failAhead .endInObject
  | some 0x7D => pure false
  | some b =>
    if first then
      if b = 0x22 then pure true else failAhead .keyMustBeString
    else if b = 0x2C then
      drop
      match ← blanks with
      | none => failAhead .endInValue
      | some 0x22 => pure true
      | some 0x7D => failAhead .trailingComma
      | some _ => failAhead .keyMustBeString
    else failAhead .expectedCommaOrBrace

/-- Reads a key whose quote is next. -/
def key : Reading String := do
  drop
  Literal.read

def colon : Reading Unit := do
  match ← blanks with
  | none => failAhead .endInObject
  | some 0x3A => drop
  | some _ => failAhead .expectedColon

/-- Complains about what follows the comma behind a list that should have ended, be it a failure of the source. -/
def extraItem {α : Type} : Reading α := fun c =>
  match blanks c with
  | .ok (some 0x5D, c) => failAhead .trailingComma c
  | .ok (_, c) => failAhead .trailingCharacters c
  | .error _ => failAhead .trailingCharacters (pastBlanks c c.rest)

/-- Takes the bracket that ends a list. -/
def endList : Reading Unit := do
  match ← blanks with
  | none => failAhead .endInList
  | some 0x5D => drop
  | some 0x2C => do
    drop
    extraItem
  | some _ => failAhead .trailingCharacters

/-- Takes the brace that ends an object. -/
def endObject : Reading Unit := do
  match ← blanks with
  | none => failAhead .endInObject
  | some 0x7D => drop
  | some 0x2C => failAhead .trailingComma
  | some _ => failAhead .trailingCharacters

def items {α : Type} (item : Reading α) : (rounds : Nat) → (first : Bool) → Reading (List α)
  | 0, _ => failAhead .endInList
  | rounds + 1, first => do
    if ← anotherItem first then
      let v ← item
      return v :: (← items item rounds false)
    else pure []

/-- The members of an object, in the order of their keys; of two with the same key the later one stays. -/
def members {α : Type} (value : Reading α) : (rounds : Nat) → (first : Bool) → List (String × α) →
    Reading (List (String × α))
  | 0, _, _ => failAhead .endInObject
  | rounds + 1, first, found => do
    if ← anotherKey first then
      let k ← key
      colon
      let v ← value
      members value rounds false (Value.insert k v found)
    else pure found

/-- Reads a list whose bracket is next. -/
def list {α : Type} (item : Reading α) : Reading (List α) := do
  drop
  let vs ← fun c => items item (c.rest.length + 1) true c
  endList
  pure vs

/-- Reads an object whose brace is next. -/
def object {α : Type} (value : Reading α) : Reading (List (String × α)) := do
  drop
  let ms ← fun c => members value (c.rest.length + 1) true [] c
  endObject
  pure ms

/-! ## Values -/

/-- Reads a value; `depth` levels may still be opened, the last of them only to be refused. -/
def value : (depth : Nat) → Reading Value
  | 0 => failAhead .tooDeep
  | depth + 1 => do
    match ← blanks with
    | none => failAhead .endInValue
    | some b =>
      if b = 0x6E then
        drop
        word [0x75, 0x6C, 0x6C]
        pure .null
      else if b = 0x74 then
        drop
        word [0x72, 0x75, 0x65]
        pure (.bool true)
      else if b = 0x66 then
        drop
        word [0x61, 0x6C, 0x73, 0x65]
        pure (.bool false)
      else if b = 0x2D then
        drop
        Number.read true
      else if Decimal.isDigit b then Number.read false
      else if b = 0x22 then
        drop
        return .string (← Literal.read)
      else if b = 0x5B then
        if depth = 0 then failAhead .tooDeep else return .array (← list (value depth))
      else if b = 0x7B then
        if depth = 0 then failAhead .tooDeep else return .object (← object (value depth))
      else failAhead .expectedValue

/-- What follows a document has to be blank. -/
def finish : Reading Unit := do
  match ← blanks with
  | none => pure ()
  | some _ => failAhead .trailingCharacters

/-- Reads a whole document. -/
def document {α : Type} (item : Reading α) (c : Cursor) : Except Error α :=
  match (do
    let v ← item
    finish
    pure v : Reading α) c with
  | .ok (v, _) => .ok v
  | .error e => .error e

end Reader

/-- Reads a text as one JSON value. -/
def Value.parse (text : String) : Except Error Value :=
  Reader.document (Reader.value Reader.depthLimit) (.whole (Text.encode text))

end DurableValue.Json
