/-
  DurableValue.Json.Number — reading a number.

  A whole number that fits 64 bits stays exact. Any other is read as a significand of at most 64 bits, whose further
  digits only move the exponent, and then scaled by a power of ten in binary64: one multiplication, or divisions by at
  most `1e308` each, every one of them rounded. The result is therefore not always the nearest number to the text.
-/
import DurableValue.Json.Cursor
import DurableValue.Json.Value

namespace DurableValue.Json

open Reading
open Decimal (Binary64 isDigit digitValue)

namespace Number

/-- Adds digits to a significand as long as it fits 64 bits; the digits left over come second. -/
def absorb (significand : Nat) : Bytes → Nat × Bytes
  | [] => (significand, [])
  | d :: ds =>
    let next := significand * 10 + digitValue d
    if next < Nat.pow 2 64 then absorb next ds else (significand, d :: ds)

def signed (negative : Bool) (x : Binary64) : Value := .float (if negative then x.neg else x)

/-- The largest power of ten in the table of factors. -/
def factorLimit : Nat := 308

def factor (k : Nat) : Binary64 := (Binary64.ofNat? (Nat.pow 10 k)).getD .zero

/-- Scales to `x · 10^exponent`, one rounded step at a time; none when it grows too large. Three divisions bring any
significand to zero, so `rounds` does not cut a result short. -/
def scale (x : Binary64) : (rounds : Nat) → Int → Option Binary64
  | 0, _ => some .zero
  | rounds + 1, exponent =>
    if exponent.natAbs ≤ factorLimit then
      if 0 ≤ exponent then x.mul? (factor exponent.natAbs) else x.div? (factor exponent.natAbs)
    else if x.isZero then some x
    else if 0 ≤ exponent then none
    else match x.div? (factor factorLimit) with
      | none => none
      | some x => scale x rounds (exponent + factorLimit)

def fromParts (negative : Bool) (significand : Nat) (exponent : Int) : Reading Value :=
  match (Binary64.ofNat? significand).bind fun x => scale x 4 exponent with
  | some x => pure (signed negative x)
  | none => failHere .numberOutOfRange

def exponentLimit : Nat := Nat.pow 2 31

/-- How many of the digits can be taken until the exponent leaves 32 bits; none if it never does. -/
def overflowAt (exponent taken : Nat) : Bytes → Option Nat
  | [] => none
  | d :: ds =>
    let next := exponent * 10 + digitValue d
    if next < exponentLimit then overflowAt next (taken + 1) ds else some (taken + 1)

/-- Reads from the `e` on. An exponent beyond 32 bits is out of range, or makes the number zero. -/
def readExponent (negative : Bool) (significand : Nat) (exponent : Int) : Reading Value := do
  drop
  let sign ← peek
  if sign = some 0x2B || sign = some 0x2D then drop
  match ← take with
  | none => failHere .endInValue
  | some d =>
    if !isDigit d then failHere .invalidNumber
    else
      let start ← get
      let ds := d :: (digitsFrom start start.rest).1
      match overflowAt 0 0 ds with
      | some taken =>
        if significand ≠ 0 ∧ sign ≠ some 0x2D then
          set { start with column := start.column + (taken - 1) }
          failHere .numberOutOfRange
        else
          let _ ← digits
          pure (signed negative .zero)
      | none =>
        let _ ← digits
        let power : Int := Decimal.value ds
        fromParts negative significand (if sign = some 0x2D then exponent - power else exponent + power)

def isExponentMark (b : Option UInt8) : Bool := b = some 0x65 || b = some 0x45

/-- Reads from the point on. -/
def readFraction (negative : Bool) (significand : Nat) (exponent : Int) : Reading Value := do
  drop
  let (ds, next) ← digits
  if ds.isEmpty then failAhead (if next.isSome then .invalidNumber else .endInValue)
  else
    let (significand, left) := absorb significand ds
    let exponent := exponent - (ds.length - left.length : Nat)
    if isExponentMark next then readExponent negative significand exponent
    else fromParts negative significand exponent

/-- What a whole number of 64 bits is: negative ones that do not fit, and minus zero, are floats. -/
def whole (negative : Bool) (n : Nat) : Value :=
  if !negative then .int n
  else if n = 0 ∨ Nat.pow 2 63 < n then .float ((Binary64.ofNat? n).getD .zero).neg
  else .int (-(n : Int))

/-- What follows the integer digits; `dropped` of them did not fit the significand. -/
def readRest (negative : Bool) (significand dropped : Nat) (next : Option UInt8) : Reading Value :=
  if next = some 0x2E then readFraction negative significand dropped
  else if isExponentMark next then readExponent negative significand dropped
  else if dropped = 0 then pure (whole negative significand)
  else fromParts negative significand dropped

/-- Reads a number behind its sign. -/
def read (negative : Bool) : Reading Value := do
  match ← take with
  | none => failHere .endInValue
  | some d =>
    if d = Decimal.zeroByte then
      let next ← peek
      if next.any isDigit then failAhead .invalidNumber else readRest negative 0 0 next
    else if isDigit d then
      let (ds, next) ← digits
      let (significand, left) := absorb 0 (d :: ds)
      readRest negative significand left.length next
    else failHere .invalidNumber

end Number

end DurableValue.Json
