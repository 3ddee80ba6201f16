/-
  DurableValue.Json.Cursor — a place in a document that is being read, byte by byte.

  A document comes as a whole or as a stream. Positions differ in one point: a stream counts a byte as read once it
  was looked at, a whole document only once it was taken; a complaint about the next byte counts it in both. A stream
  may fail instead of ending; then every look beyond its last byte reports the failure.
-/
import DurableValue.Json.Problem

namespace DurableValue.Json

/-- What comes after the last byte of a source. -/
inductive Ending where
  | stop
  | fail (e : Disk.IoError)
  deriving DecidableEq, Repr

structure Cursor where
  rest : Bytes
  line : Nat := 1
  column : Nat := 0
  isStream : Bool
  /-- The next byte was looked at and not taken. -/
  looked : Bool := false
  ending : Ending := .stop
  deriving DecidableEq, Repr

namespace Cursor

def whole (bs : Bytes) : Cursor := { rest := bs, isStream := false }

def stream (bs : Bytes) (ending : Ending) : Cursor := { rest := bs, isStream := true, ending := ending }

/-- The cursor after one byte. -/
def past (c : Cursor) (b : UInt8) (rest : Bytes) : Cursor :=
  if b = 0x0A then { c with rest := rest, looked := false, line := c.line + 1, column := 0 }
  else { c with rest := rest, looked := false, column := c.column + 1 }

/-- Without the next byte, if there is one. -/
def skip (c : Cursor) : Cursor :=
  match c.rest with
  | [] => c
  | b :: bs => c.past b bs

/-- Where a complaint about what was read is placed. -/
def here (c : Cursor) : Nat × Nat :=
  let c := if c.isStream && c.looked then c.skip else c
  (c.line, c.column)

/-- Where a complaint about the next byte is placed. -/
def ahead (c : Cursor) : Nat × Nat :=
  let c := if c.isStream && !c.looked then c else c.skip
  (c.line, c.column)

def errorHere (c : Cursor) (p : Problem) : Error := .bad p c.here.1 c.here.2

def errorAhead (c : Cursor) (p : Problem) : Error := .bad p c.ahead.1 c.ahead.2

end Cursor

/-- A reader of something at the cursor. -/
abbrev Reading (α : Type) := StateT Cursor (Except Error) α

namespace Reading

def failHere {α : Type} (p : Problem) : Reading α := fun c => .error (c.errorHere p)

def failAhead {α : Type} (p : Problem) : Reading α := fun c => .error (c.errorAhead p)

/-- The next byte, left where it is; none at the end. -/
def peek : Reading (Option UInt8) := fun c =>
  match c.rest with
  | b :: _ => .ok (some b, { c with looked := true })
  | [] =>
    match c.ending with
    | .stop => .ok (none, c)
    | .fail e => .error (.source e)

/-- Takes the next byte. -/
def take : Reading (Option UInt8) := fun c =>
  match c.rest with
  | b :: bs => .ok (some b, c.past b bs)
  | [] =>
    match c.ending with
    | .stop => .ok (none, c)
    | .fail e => .error (.source e)

/-- Drops a byte that was looked at. -/
def drop : Reading Unit := fun c => .ok ((), c.skip)

def isBlank (b : UInt8) : Bool := b = 0x20 || b = 0x0A || b = 0x09 || b = 0x0D

/-- The cursor behind the blanks that start at `bs`. -/
def pastBlanks (c : Cursor) : Bytes → Cursor
  | [] => c
  | b :: bs => if isBlank b then pastBlanks (c.past b bs) bs else c

/-- Skips blanks and looks at the byte behind them. -/
def blanks : Reading (Option UInt8) := fun c => peek (pastBlanks c c.rest)

/-- Takes the bytes of a word that has to follow. -/
def word : Bytes → Reading Unit
  | [] => pure ()
  | b :: bs => do
    match ← take with
    | none => failHere .endInValue
    | some found => if found = b then word bs else failHere .expectedIdent

/-- Takes the digits that come next. -/
def digitsFrom (c : Cursor) : Bytes → Bytes × Cursor
  | [] => ([], c)
  | b :: bs =>
    if Decimal.isDigit b then
      let r := digitsFrom (c.past b bs) bs
      (b :: r.1, r.2)
    else ([], c)

/-- The digits that come next, and the byte behind them. -/
def digits : Reading (Bytes × Option UInt8) := fun c =>
  let r := digitsFrom c c.rest
  match peek r.2 with
  | .ok (next, c) => .ok ((r.1, next), c)
  | .error e => .error e

end Reading

end DurableValue.Json
