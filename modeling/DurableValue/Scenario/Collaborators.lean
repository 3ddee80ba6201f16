/-
  DurableValue.Scenario.Collaborators — the code that a scripted session gives its cells: handlers, migrations, and
  codecs that fail at a chosen call.

  Each call leaves a note, so that a session can tell which code ran and in which order.
-/
import DurableValue.Cell.Bench
import DurableValue.Disk.Basic
import DurableValue.Scenario.Kind

namespace DurableValue.Scenario

open Cell (Outcome Mishap)

inductive Handler (V : Type) where
  | replace (v : V)
  | failing (f : Failing)

def Handler.run {V : Type} (h : Handler V) (_ : Codec.Error) : Outcome V :=
  match h with
  | replace v => .returned v
  | failing f => f.outcome

/-- How a migration is made: as a whole, out of closures, or with nothing but what it must have. -/
inductive Make where
  | full
  | closures
  | bare
  deriving DecidableEq, Repr

inductive CleanUp where
  | observe
  | failing (f : Failing)
  deriving DecidableEq, Repr

structure Migrating where
  make : Make
  name : String
  condition : Condition
  edit : Edit
  cleanUp : Option CleanUp

namespace Migrating

variable {V : Type}

/-- A condition made out of a closure cannot fail: it counts as false. It can still panic. -/
def applies (m : Migrating) (k : Kind V) (v : V) : Outcome Bool :=
  match m.make, k.test m.condition v with
  | .closures, .failed _ => .returned false
  | _, outcome => outcome

def cleaned (m : Migrating) : Outcome Unit :=
  match m.make, m.cleanUp with
  | .bare, _ => .returned ()
  | _, some (.failing f) => f.outcome
  | _, _ => .returned ()

def migration (m : Migrating) (k : Kind V) : Cell.Migration V where
  name := if m.make = .bare then "migration" else m.name
  applies := m.applies k
  migrate := k.edit m.edit
  cleanUp := m.cleaned

/-- The name in notes. -/
def label (m : Migrating) : String := if m.make = .bare then "bare" else m.name

/-- The note of a clean-up. One that observes tells what the file in memory holds at that moment. -/
def cleanUpNote (m : Migrating) (file : Option Path) (disk : Disk) : Option String :=
  match m.make, m.cleanUp with
  | .bare, _ => none
  | .closures, none => none
  | _, some .observe =>
    match file, disk with
    | some p, .memory d =>
      let stored := ((d.contents p).map Text.repaired).getD "<none>"
      some (m.name ++ ":clean_up=" ++ stored)
    | _, _ => some (m.name ++ ":clean_up")
  | _, _ => some (m.name ++ ":clean_up")

end Migrating

/-- The note of a call; `file` is the path of the cell if it was known when the cell was built. A transform leaves no
note, and neither does a producer that panics. -/
def note (migrations : List Migrating) (file : Option Path) : Cell.Call × Disk → Option String
  | (.produce (.gives _), _) => some "produce"
  | (.produce (.panics _), _) | (.transform, _) => none
  | (.handle e, _) => some ("handler:" ++ e.display)
  | (.applies i, _) => migrations[i]?.map fun m => m.label ++ ":should"
  | (.migrate i, _) => migrations[i]?.map fun m => m.label ++ ":migrate"
  | (.cleanUp i, disk) => migrations[i]?.bind fun m => m.cleanUpNote file disk

/-- A codec that fails once. -/
structure Fault where
  onDecode : Bool
  mishap : Mishap
  /-- How many calls go well before. -/
  skip : Nat
  deriving DecidableEq, Repr

/-- What befalls a call of one direction of the codec. -/
def Fault.mishap? (f : Option Fault) (onDecode : Bool) (call : Nat) : Option Mishap :=
  match f with
  | some f => if f.onDecode = onDecode && f.skip = call then some f.mishap else none
  | none => none

end DurableValue.Scenario
