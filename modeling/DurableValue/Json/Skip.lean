/-
  DurableValue.Json.Skip — skipping a value that nobody asked for.

  The brackets that are open are kept on a stack, so there is no limit to their nesting. Numbers and strings are only
  checked for their form.
-/
import DurableValue.Json.Reader

namespace DurableValue.Json

open Reading
open Decimal (isDigit)

inductive Skip.Bracket where
  | list
  | object
  deriving DecidableEq, Repr

namespace Skip

def skipDigits : Reading (Option UInt8) := do
  let (_, next) ← digits
  pure next

/-- From the `e` on. -/
def skipExponent : Reading Unit := do
  drop
  let sign ← peek
  if sign = some 0x2B || sign = some 0x2D then drop
  match ← take with
  | some d =>
    if isDigit d then
      let _ ← skipDigits
    else failHere .invalidNumber
  | none => failHere .invalidNumber

/-- From the point on. -/
def skipFraction : Reading Unit := do
  drop
  let (ds, next) ← digits
  if ds.isEmpty then failAhead .invalidNumber
  else if Number.isExponentMark next then skipExponent

/-- A number behind its sign. -/
def skipNumber : Reading Unit := do
  let next ← match ← take with
    | none => failHere .invalidNumber
    | some d =>
      if d = Decimal.zeroByte then do
        let next ← peek
        if next.any isDigit then failAhead .invalidNumber else pure next
      else if isDigit d then skipDigits
      else failHere .invalidNumber
  if next = some 0x2E then skipFraction
  else if Number.isExponentMark next then skipExponent

def skipText : Reading Unit := fun c => Literal.skip (c.rest.length + 1) c

/-- A key with its colon. -/
def skipKey : Reading Unit := do
  match ← blanks with
  | none => failAhead .endInObject
  | some 0x22 => drop
  | some _ => failAhead .keyMustBeString
  skipText
  Reader.colon

/-- Skips one scalar, or opens one bracket. -/
def skipStart : Reading (Option Bracket) := do
  match ← blanks with
  | none => failAhead .endInValue
  | some b =>
    if b = 0x6E then drop; word [0x75, 0x6C, 0x6C]; pure none
    else if b = 0x74 then drop; word [0x72, 0x75, 0x65]; pure none
    else if b = 0x66 then drop; word [0x61, 0x6C, 0x73, 0x65]; pure none
    else if b = 0x2D then drop; skipNumber; pure none
    else if isDigit b then skipNumber; pure none
    else if b = 0x22 then drop; skipText; pure none
    else if b = 0x5B then drop; pure (some .list)
    else if b = 0x7B then drop; pure (some .object)
    else failAhead .expectedValue

/-- Closes brackets and passes one comma, so that the next value may start; an empty stack means the end. `fresh`
says that the innermost bracket was opened just now. -/
def skipBetween : (fresh : Bool) → List Bracket → Reading (List Bracket)
  | _, [] => pure []
  | fresh, b :: outer => do
    let close : UInt8 := if b = .list then 0x5D else 0x7D
    match ← blanks with
    | none => failAhead (if b = .list then .endInList else .endInObject)
    | some found =>
      if !fresh && found = 0x2C then
        drop
        pure (b :: outer)
      else if found = close then
        drop
        skipBetween false outer
      else if fresh then pure (b :: outer)
      else failAhead (if b = .list then .expectedCommaOrBracket else .expectedCommaOrBrace)

/-- Skips values until the stack of brackets is empty. -/
def skipWithin : (rounds : Nat) → List Bracket → Reading Unit
  | 0, _ => failAhead .endInValue
  | rounds + 1, stack => do
    let opened ← skipStart
    let left ← match opened with
      | some b => skipBetween true (b :: stack)
      | none => skipBetween false stack
    match left with
    | [] => pure ()
    | b :: _ =>
      if b = .object then skipKey
      skipWithin rounds left

/-- Skips one value. -/
def value : Reading Unit := fun c => skipWithin (c.rest.length + 1) [] c

end Skip

end DurableValue.Json
