/-
  DurableValue.Journal.Basic — the journal of a run: the lines at or above a threshold, in the order they were noted.

  Nothing reads the journal back. An operation that notes a line returns the journal beside its result, and the result
  does not depend on it.
-/
import DurableValue.Journal.Line

namespace DurableValue

structure Journal where
  least : Journal.Severity := .warn
  /-- Newest first. -/
  noted : List Journal.Line := []
  deriving DecidableEq, Repr, Inhabited

namespace Journal

/-- Whether lines of this severity are kept. -/
def keeps (j : Journal) (s : Severity) : Bool := j.least ≤ s

def add (j : Journal) (l : Line) : Journal :=
  if j.keeps l.severity then { j with noted := l :: j.noted } else j

def note (j : Journal) (severity : Severity) (event : String) (fields : List Field) : Journal :=
  j.add ⟨severity, event, fields⟩

/-- The lines kept so far, oldest first. -/
def lines (j : Journal) : List Line := j.noted.reverse

def linesOn (j : Journal) (c : Channel) : List Line := j.lines.filter fun l => l.channel = c

/-- What was written to a channel. -/
def text (j : Journal) (c : Channel) : String := String.join ((j.linesOn c).map Line.render)

/-- The same threshold with no lines. -/
def emptied (j : Journal) : Journal := { j with noted := [] }

end Journal

end DurableValue
