/-
  DurableValue.Codec.Basic — how the values of a cell become the bytes of its file, and back.

  Decoding tells bytes that are no value of the codec apart from every other failure: only the first kind is
  corruption, and only corruption may be repaired.
-/
import DurableValue.Disk.IoError
import DurableValue.Text.Blank
import DurableValue.Decimal.Digits

namespace DurableValue.Codec

inductive Error where
  /-- The bytes are no value; `source` is what the reader of the bytes had to say. -/
  | corruption (message : String) (source : Option String)
  | encode (message : String)
  | io (e : Disk.IoError)
  deriving DecidableEq, Repr

namespace Error

def isCorruption : Error → Bool
  | corruption _ _ => true
  | _ => false

def display : Error → String
  | corruption m _ => "Corrupted payload: " ++ m
  | encode m => "Failed to encode value: " ++ m
  | io e => "I/O error: " ++ e.message

/-- What stands behind the error, in its own words. -/
def source : Error → Option String
  | corruption _ s => s
  | encode _ => none
  | io e => some e.message

end Error

end Codec

structure Codec (V : Type) where
  /-- The value of a file that is not there. -/
  default : V
  decode : Bytes → Except Codec.Error V
  encode : V → Except Codec.Error Bytes

namespace Codec

/-- Text as its own UTF-8 bytes. -/
def text (default : String) : Codec String where
  default := default
  decode bs :=
    match Text.decode? bs with
    | some s => .ok s
    | none => .error (.corruption "not UTF-8" none)
  encode s := .ok (Text.encode s)

/-- Whole numbers of 64 bits in decimal; spaces and newlines around one are accepted. -/
def decimal (default : Int) : Codec Int where
  default := default
  decode bs :=
    match Text.decode? bs with
    | none => .error (.io .notText)
    | some s =>
      match Decimal.integer? (Text.encode (Text.stripWhere (fun c => c = ' ' || c = '\n') s)) with
      | some n =>
        if Decimal.fitsSigned n then .ok n else .error (.corruption "not an integer" none)
      | none => .error (.corruption "not an integer" none)
  encode n := .ok (Decimal.ofInt n)

end Codec

end DurableValue
