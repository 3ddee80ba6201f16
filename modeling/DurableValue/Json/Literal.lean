/-
  DurableValue.Json.Literal — reading a string behind its opening quote.

  The bytes of the string are collected with their escapes undone and then read as UTF-8. Escapes above U+FFFF come as
  a pair of surrogates, and half a pair is refused. Invalid UTF-8 is noticed at the closing quote and reported at the
  first byte that is wrong.
-/
import DurableValue.Json.Cursor

namespace DurableValue.Json

open Reading

namespace Literal

def takeByte : Reading UInt8 := do
  match ← take with
  | some b => pure b
  | none => failHere .endInString

def hexValue? (b : UInt8) : Option Nat :=
  if 0x30 ≤ b && b ≤ 0x39 then some (b.toNat - 0x30)
  else if 0x41 ≤ b && b ≤ 0x46 then some (b.toNat - 0x37)
  else if 0x61 ≤ b && b ≤ 0x66 then some (b.toNat - 0x57)
  else none

/-- The four digits of an escape. All four bytes are taken before they are judged. -/
def hexEscape : Reading Nat := do
  let a ← takeByte
  let b ← takeByte
  let c ← takeByte
  let d ← takeByte
  match hexValue? a, hexValue? b, hexValue? c, hexValue? d with
  | some a, some b, some c, some d => pure (((a * 16 + b) * 16 + c) * 16 + d)
  | _, _, _, _ => failHere .invalidEscape

/-- The bytes of a code point that is not a surrogate. -/
def pointBytes (n : Nat) : Bytes := Text.encode (Char.ofNat n).toString

/-- One byte of the second half of a pair, which has to be `b`. -/
def pairByte (b : UInt8) : Reading Unit := do
  match ← peek with
  | none => failHere .endInString
  | some found =>
    drop
    if found = b then pure () else failHere .endInSurrogates

/-- Reads an escape behind `\u`. -/
def unicodeEscape : Reading Bytes := do
  let n ← hexEscape
  if 0xDC00 ≤ n && n ≤ 0xDFFF then failHere .loneSurrogate
  else if n < 0xD800 || 0xDBFF < n then pure (pointBytes n)
  else
    pairByte 0x5C
    pairByte 0x75
    let m ← hexEscape
    if m < 0xDC00 || 0xDFFF < m then failHere .loneSurrogate
    else pure (pointBytes ((n - 0xD800) * 0x400 + (m - 0xDC00) + 0x10000))

/-- Reads an escape behind the backslash. -/
def escape : Reading Bytes := do
  let b ← takeByte
  if b = 0x22 || b = 0x5C || b = 0x2F then pure [b]
  else if b = 0x62 then pure [0x08]
  else if b = 0x66 then pure [0x0C]
  else if b = 0x6E then pure [0x0A]
  else if b = 0x72 then pure [0x0D]
  else if b = 0x74 then pure [0x09]
  else if b = 0x75 then unicodeEscape
  else failHere .invalidEscape

/-- The bytes up to the closing quote, which is taken too; each round takes at least one byte. -/
def content : (rounds : Nat) → Reading Bytes
  | 0 => failHere .endInString
  | rounds + 1 => do
    let b ← takeByte
    if b = 0x22 then pure []
    else if b = 0x5C then
      let e ← escape
      return e ++ (← content rounds)
    else if b < 0x20 then failHere .controlCharacter
    else return b :: (← content rounds)

/-- Reads bytes as text; the cursor stands behind the closing quote. -/
def decoded (bs : Bytes) : Reading String := fun c =>
  match Text.decode? bs with
  | some s => .ok (s, c)
  | none =>
    let wrong := bs.length - Text.validLength bs
    .error (.bad .invalidCodePoint c.line (c.column - wrong))

/-- Reads a string behind its opening quote. -/
def read : Reading String := fun c => (do decoded (← content (c.rest.length + 1))) c

/-- Skips a string behind its opening quote; its characters may be anything that can be escaped. -/
def skip : (rounds : Nat) → Reading Unit
  | 0 => failHere .endInString
  | rounds + 1 => do
    let b ← takeByte
    if b = 0x22 then pure ()
    else if b = 0x5C then
      let e ← takeByte
      if e = 0x75 then
        let _ ← hexEscape
        skip rounds
      else if [0x22, 0x5C, 0x2F, 0x62, 0x66, 0x6E, 0x72, 0x74].contains e then skip rounds
      else failHere .invalidEscape
    else if b < 0x20 then failHere .controlCharacter
    else skip rounds

end Literal

end DurableValue.Json
