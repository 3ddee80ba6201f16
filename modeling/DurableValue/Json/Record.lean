/-
  DurableValue.Json.Record — reading a record: a fixed set of named fields.

  A record is read from an object, or from a list of its fields in their order. A field may be read once. A field that
  the record does not know is skipped, or refused when the record is strict. What is wrong with the record as a whole
  is reported where reading stands after an attempt to close it.
-/
import DurableValue.Json.Shape
import DurableValue.Json.Skip

namespace DurableValue.Json

open Reading

/-- One field of a record that is being filled in. -/
structure Record.Field (σ : Type) where
  name : String
  isRead : σ → Bool
  read : σ → Reading σ
  /-- Whether a list may end before this field. -/
  isOptional : Bool

structure Record (σ ρ : Type) where
  expected : String
  fields : List (Record.Field σ)
  isStrict : Bool
  blank : σ
  /-- The record, or the field that is still missing. -/
  finish : σ → Except String ρ

namespace Record

variable {σ ρ : Type}

/-- A problem has its place already, or waits for the record to be closed. -/
inductive Snag where
  | placed (e : Error)
  | whole (p : Problem) (c : Cursor)

abbrev Filling (α : Type) := StateT Cursor (Except Snag) α

def placed {α : Type} (r : Reading α) : Filling α := fun c => (r c).mapError .placed

def whole {α : Type} (p : Problem) : Filling α := fun c => .error (.whole p c)

def lengthText (r : Record σ ρ) : String := r.expected ++ " with " ++ toString r.fields.length ++ " elements"

/-- Reads the fields of an object, key by key. -/
def fromMembers (r : Record σ ρ) : (rounds : Nat) → (first : Bool) → σ → Filling σ
  | 0, _, _ => placed (failAhead .endInObject)
  | rounds + 1, first, s => do
    if ← placed (Reader.anotherKey first) then
      let k ← placed Reader.key
      match r.fields.find? fun f => f.name = k with
      | some f =>
        if f.isRead s then whole (.repeatedField k)
        else
          placed Reader.colon
          let s ← placed (f.read s)
          r.fromMembers rounds false s
      | none =>
        if r.isStrict then whole (.unknownField k (r.fields.map (·.name)))
        else
          placed Reader.colon
          placed Skip.value
          r.fromMembers rounds false s
    else pure s

/-- Reads the fields of a list, one by one; `count` of them were read before. -/
def fromItems (r : Record σ ρ) : List (Field σ) → (count : Nat) → (first : Bool) → σ → Filling σ
  | [], _, _, s => pure s
  | f :: fs, count, first, s => do
    if ← placed (Reader.anotherItem first) then
      let s ← placed (f.read s)
      r.fromItems fs (count + 1) false s
    else if f.isOptional then r.fromItems fs (count + 1) first s
    else whole (.wrongLength count r.lengthText)

def completed (r : Record σ ρ) (s : σ) : Filling ρ :=
  match r.finish s with
  | .ok v => pure v
  | .error name => whole (.missingField name)

/-- Where an attempt to close the record leaves the cursor, whether or not it succeeds. -/
def afterClosing (close : UInt8) (c : Cursor) : Cursor :=
  let c := pastBlanks c c.rest
  match c.rest with
  | [] => c
  | b :: bs =>
    let looked := { c with looked := true }
    if b = close then c.past b bs
    else if b = 0x2C && close = 0x5D then
      let c := c.past b bs
      let c := pastBlanks c c.rest
      if c.rest.isEmpty then c else { c with looked := true }
    else looked

/-- Runs `fill` inside brackets and closes them. -/
def enclosed (fill : Filling ρ) (close : UInt8) (closing : Reading Unit) : Reading ρ := fun c =>
  match fill c with
  | .ok (v, c) => (do closing; pure v : Reading ρ) c
  | .error (.placed e) => .error e
  | .error (.whole p c) => .error ((afterClosing close c).errorHere p)

def read (r : Record σ ρ) : Reading ρ := do
  let b ← Shape.start
  if b = 0x5B then
    drop
    enclosed (do r.completed (← r.fromItems r.fields 0 true r.blank)) 0x5D Reader.endList
  else if b = 0x7B then
    drop
    enclosed (fun c => (do r.completed (← r.fromMembers (c.rest.length + 1) true r.blank)) c) 0x7D Reader.endObject
  else Shape.mismatch r.expected

end Record

end DurableValue.Json
