/-
  DurableValue.Codec.Json — JSON as the stored form of a value.

  A format says how values of a type are read and which JSON value is written for them. Decoding reads a stream of
  bytes: a document that is not one of the format is corruption, and a stream that fails is not. Encoding writes chunk
  by chunk to a sink that may have room for so many bytes only.
-/
import DurableValue.Codec.Basic
import DurableValue.Json.Printer
import DurableValue.Json.Record

namespace DurableValue.Codec

open Json (Reading Ending Layout Value)

structure Format (α : Type) where
  default : α
  read : Reading α
  /-- What is written, member by member in the order of writing. -/
  toValue : α → Value

namespace Format

variable {α : Type}

/-- What a failed reading means for the stored bytes. -/
def errorOf : Json.Error → Error
  | .source e => .io e
  | .bad p line column =>
    .corruption ("invalid JSON at line " ++ toString line ++ " column " ++ toString column)
      (some (Json.Error.bad p line column).message)

/-- Decodes what a stream gives before it ends or fails. -/
def decodeStream (f : Format α) (bs : Bytes) (ending : Ending) : Except Error α :=
  (Json.Reader.document f.read (.stream bs ending)).mapError errorOf

def decode (f : Format α) (bs : Bytes) : Except Error α := f.decodeStream bs .stop

/-- Reads a value from a text that is at hand as a whole. -/
def parse (f : Format α) (text : String) : Except Json.Error α :=
  Json.Reader.document f.read (.whole (Text.encode text))

def chunks (f : Format α) (layout : Layout) (v : α) : List Bytes := (f.toValue v).chunks layout

/-- The chunks a sink with room for `room` bytes takes, and whether it took all of them. -/
def accepted (room : Nat) : List Bytes → Bytes × Bool
  | [] => ([], true)
  | c :: cs =>
    if c.length ≤ room then
      let r := accepted (room - c.length) cs
      (c ++ r.1, r.2)
    else ([], false)

def sinkFull : Disk.IoError := .other "writer full"

/-- Encodes into a sink with room for so many bytes, or without a limit. -/
def encodeInto (f : Format α) (layout : Layout) (room : Option Nat) (v : α) : Except Error Bytes :=
  match room with
  | none => .ok (f.chunks layout v).flatten
  | some room =>
    match accepted room (f.chunks layout v) with
    | (bs, true) => .ok bs
    | (_, false) => .error (.io sinkFull)

/-- The codec of a format with the given default. -/
def codec (f : Format α) (layout : Layout) (default : α) : Codec α where
  default := default
  decode := f.decode
  encode v := f.encodeInto layout none v

end Format

/-- A map whose key is no string cannot be written; the opening brace is, before that shows. -/
def encodeUnkeyed (room : Option Nat) : Except Error Bytes :=
  if room.any (· < 1) then .error (.io Format.sinkFull) else .error (.encode Json.Problem.keyMustBeString.message)

/-! ## Formats -/

def json : Format Value where
  default := .null
  read := Json.Reader.value Json.Reader.depthLimit
  toValue v := v

def u32s : Format (List Int) where
  default := []
  read := Json.Shape.list Json.Shape.u32
  toValue ns := .array (ns.map .int)

def u64 : Format Int where
  default := 0
  read := Json.Shape.u64
  toValue := .int

def i64 : Format Int where
  default := 0
  read := Json.Shape.i64
  toValue := .int

def string : Format String where
  default := ""
  read := Json.Shape.string
  toValue := .string

def bool : Format Bool where
  default := false
  read := Json.Shape.bool
  toValue := .bool

def map : Format (List (String × Int)) where
  default := []
  read := Json.Shape.map Json.Shape.i64
  toValue ms := .object (ms.map fun m => (m.1, .int m.2))

def option : Format (Option Int) where
  default := none
  read := Json.Shape.option Json.Shape.i64
  toValue
    | none => .null
    | some n => .int n

end DurableValue.Codec
