/-
  DurableValue.Text.Bytes — file contents are lists of bytes, and text is their UTF-8 reading.

  `encode` and `decode?` move between the two. `validLength` says how much of a byte list is well formed, which is
  where a reader places the complaint about the first bad byte. `repaired` reads any byte list, with a replacement
  character for each piece that is no character.
-/

namespace DurableValue

/-- What a file, a payload or a written line consists of. -/
abbrev Bytes := List UInt8

namespace Text

def encode (s : String) : Bytes := s.toUTF8.toList

def decode? (bs : Bytes) : Option String := String.fromUTF8? ⟨bs.toArray⟩

def isValid (bs : Bytes) : Bool := (decode? bs).isSome

/-- The byte count of the character that starts with `b`, when `b` can start one. -/
def sizeFromLead (b : UInt8) : Option Nat :=
  if b < 0x80 then some 1
  else if 0xC2 ≤ b ∧ b < 0xE0 then some 2
  else if 0xE0 ≤ b ∧ b < 0xF0 then some 3
  else if 0xF0 ≤ b ∧ b < 0xF5 then some 4
  else none

/-- How many leading bytes form complete, valid characters; each round takes one character. -/
def validLengthWithin : Nat → Bytes → Nat
  | 0, _ => 0
  | _ + 1, [] => 0
  | rounds + 1, b :: bs =>
    match sizeFromLead b with
    | none => 0
    | some n =>
      let one := (b :: bs).take n
      if one.length = n && isValid one then n + validLengthWithin rounds ((b :: bs).drop n) else 0

def validLength (bs : Bytes) : Nat := validLengthWithin bs.length bs

/-- Whether `b` may stand second in a character that starts with `lead`: no overlong form, no surrogate, nothing
above the last code point. -/
def maySecond (lead b : UInt8) : Bool :=
  let least := if lead = 0xE0 then 0xA0 else if lead = 0xF0 then 0x90 else 0x80
  let most := if lead = 0xED then 0x9F else if lead = 0xF4 then 0x8F else 0xBF
  least ≤ b && b ≤ most

/-- How many of the bytes `bs` go on with the character that `lead` starts. -/
def followers (lead : UInt8) (bs : Bytes) : Nat :=
  match sizeFromLead lead, bs with
  | some (n + 2), second :: more =>
    if maySecond lead second then 1 + ((more.take n).takeWhile fun b => 0x80 ≤ b && b ≤ 0xBF).length else 0
  | _, _ => 0

def replacement : String := "\ufffd"

/-- The text of `bs`, where a start of a character that is not gone on with to its end, or a byte that starts none,
becomes one replacement character. -/
def repaired : Bytes → String
  | [] => ""
  | lead :: bs =>
    let n := followers lead bs
    (decode? (lead :: bs.take n)).getD replacement ++ repaired (bs.drop n)
termination_by bs => bs.length
decreasing_by simp only [List.length_drop, List.length_cons]; omega

end Text

end DurableValue
