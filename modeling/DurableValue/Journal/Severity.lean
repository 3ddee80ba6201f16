/-
  DurableValue.Journal.Severity — how grave a journal line is.

  Severities are ordered, and a journal keeps the lines at or above its threshold.
-/
import DurableValue.Text.Blank

namespace DurableValue.Journal

inductive Severity where
  | trace
  | info
  | warn
  | error
  | fatal
  deriving DecidableEq, Repr, Inhabited

namespace Severity

def all : List Severity := [.trace, .info, .warn, .error, .fatal]

def rank : Severity → Nat
  | trace => 0
  | info => 1
  | warn => 2
  | error => 3
  | fatal => 4

instance : LE Severity := ⟨fun a b => a.rank ≤ b.rank⟩

instance (a b : Severity) : Decidable (a ≤ b) := inferInstanceAs (Decidable (a.rank ≤ b.rank))

def name : Severity → String
  | trace => "TRACE"
  | info => "INFO"
  | warn => "WARN"
  | error => "ERROR"
  | fatal => "FATAL"

/-- Reads a severity by its name, in any case and with blanks around it; `warning` is a second name. -/
def parse? (text : String) : Option Severity :=
  match Text.lowerAscii (Text.strip text) with
  | "trace" => some trace
  | "info" => some info
  | "warn" => some warn
  | "warning" => some warn
  | "error" => some error
  | "fatal" => some fatal
  | _ => none

/-- The severity to start with when the environment names one, or names none. -/
def fromEnvironment (setting : Option String) : Severity :=
  (setting.bind parse?).getD warn

end Severity

/-- The environment variable that sets the threshold of a process. -/
def levelVariable : String := "DURABLE_CELL_LOG"

end DurableValue.Journal
