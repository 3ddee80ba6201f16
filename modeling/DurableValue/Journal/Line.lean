/-
  DurableValue.Journal.Line — one journal line: an event with a severity and named fields.

  A line is written as one JSON object of strings: the event, the severity, then the fields in the order of their
  keys, equal keys in the order given. Quotes, backslashes and control characters are escaped, so a field's text can
  neither end the line nor add a member.
-/
import DurableValue.Journal.Severity
import DurableValue.Text.Hex

namespace DurableValue.Journal

abbrev Field := String × String

structure Line where
  severity : Severity
  event : String
  fields : List Field
  deriving DecidableEq, Repr

/-- The two places a line can go to. -/
inductive Channel where
  | out
  | err
  deriving DecidableEq, Repr

namespace Line

def isControl (c : Char) : Bool := c.toNat < 0x20 || (0x7F ≤ c.toNat && c.toNat ≤ 0x9F)

def escapeChar (c : Char) : List Char :=
  if c = '"' then ['\\', '"']
  else if c = '\\' then ['\\', '\\']
  else if c = '\n' then ['\\', 'n']
  else if c = '\r' then ['\\', 'r']
  else if c = '\t' then ['\\', 't']
  else if isControl c then ['\\', 'u'] ++ (Text.hex4 c.toNat).toList
  else [c]

def escape (s : String) : List Char := s.toList.flatMap escapeChar

/-- A member of the object: `"key":"value"`. -/
def member (key value : String) : List Char :=
  ['"'] ++ escape key ++ ['"', ':', '"'] ++ escape value ++ ['"']

def sortedFields (l : Line) : List Field := l.fields.mergeSort fun a b => decide (a.1 ≤ b.1)

def members (l : Line) : List Field := ("event", l.event) :: ("severity", l.severity.name) :: l.sortedFields

/-- The object alone, without the newline that ends it. -/
def body (l : Line) : List Char :=
  ['{'] ++ [','].intercalate (l.members.map fun f => member f.1 f.2) ++ ['}']

/-- The line as it is written, newline included. -/
def render (l : Line) : String := .ofList (l.body ++ ['\n'])

/-- Errors and worse go to the error channel. -/
def channel (l : Line) : Channel := if Severity.error ≤ l.severity then .err else .out

end Line

end DurableValue.Journal
