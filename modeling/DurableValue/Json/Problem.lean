/-
  DurableValue.Json.Problem — what can be wrong with a JSON document, and where.

  A problem is a cause; the reader adds the line and the column at which it noticed. Lines count from one, and the
  column is the number of bytes of that line read so far. A reader whose source fails reports the source's own error
  instead.
-/
import DurableValue.Decimal.Shortest
import DurableValue.Disk.IoError
import DurableValue.Text.Quoted

namespace DurableValue.Json

/-- The kind of a value that stands where another kind is wanted. -/
inductive Found where
  | null
  | bool (b : Bool)
  | int (n : Int)
  | float (x : Decimal.Binary64)
  | string (s : String)
  | array
  | object
  deriving DecidableEq, Repr

def Found.describe : Found → String
  | null => "null"
  | bool true => "boolean `true`"
  | bool false => "boolean `false`"
  | int n => "integer `" ++ toString n ++ "`"
  | float x => "floating point `" ++ (Text.decode? x.text).getD "" ++ "`"
  | string s => "string " ++ Text.quoted s
  | array => "sequence"
  | object => "map"

inductive Problem where
  | endInValue
  | endInList
  | endInObject
  | endInString
  | expectedValue
  | expectedIdent
  | expectedColon
  | expectedCommaOrBracket
  | expectedCommaOrBrace
  | trailingComma
  | trailingCharacters
  | keyMustBeString
  | invalidNumber
  | numberOutOfRange
  | invalidEscape
  | invalidCodePoint
  | controlCharacter
  | loneSurrogate
  | endInSurrogates
  | tooDeep
  | wrongType (found : Found) (expected : String)
  | wrongValue (found : Found) (expected : String)
  | wrongLength (count : Nat) (expected : String)
  | unknownField (name : String) (expected : List String)
  | repeatedField (name : String)
  | missingField (name : String)
  deriving DecidableEq, Repr

namespace Problem

def ticked (s : String) : String := "`" ++ s ++ "`"

def message : Problem → String
  | endInValue => "EOF while parsing a value"
  | endInList => "EOF while parsing a list"
  | endInObject => "EOF while parsing an object"
  | endInString => "EOF while parsing a string"
  | expectedValue => "expected value"
  | expectedIdent => "expected ident"
  | expectedColon => "expected `:`"
  | expectedCommaOrBracket => "expected `,` or `]`"
  | expectedCommaOrBrace => "expected `,` or `\x7d`"
  | trailingComma => "trailing comma"
  | trailingCharacters => "trailing characters"
  | keyMustBeString => "key must be a string"
  | invalidNumber => "invalid number"
  | numberOutOfRange => "number out of range"
  | invalidEscape => "invalid escape"
  | invalidCodePoint => "invalid unicode code point"
  | controlCharacter => "control character (\\u0000-\\u001F) found while parsing a string"
  | loneSurrogate => "lone leading surrogate in hex escape"
  | endInSurrogates => "unexpected end of hex escape"
  | tooDeep => "recursion limit exceeded"
  | wrongType found expected => "invalid type: " ++ found.describe ++ ", expected " ++ expected
  | wrongValue found expected => "invalid value: " ++ found.describe ++ ", expected " ++ expected
  | wrongLength count expected => "invalid length " ++ toString count ++ ", expected " ++ expected
  | unknownField name expected =>
    "unknown field " ++ ticked name ++ ", expected one of " ++ ", ".intercalate (expected.map ticked)
  | repeatedField name => "duplicate field " ++ ticked name
  | missingField name => "missing field " ++ ticked name

end Problem

inductive Error where
  | bad (problem : Problem) (line column : Nat)
  | source (e : Disk.IoError)
  deriving DecidableEq, Repr

def Error.message : Error → String
  | bad p line column => p.message ++ " at line " ++ toString line ++ " column " ++ toString column
  | source e => e.message

end DurableValue.Json
