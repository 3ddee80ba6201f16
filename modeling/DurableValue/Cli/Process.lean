/-
  DurableValue.Cli.Process — the command line as a process: arguments and environment in, two texts, an exit and a
  changed host out.

  A process that passes the crash point its environment names stops right there, with what it had printed and written
  by then.
-/
import DurableValue.Cli.Command

namespace DurableValue.Cli

inductive Exit where
  | code (n : UInt32)
  | aborted
  deriving DecidableEq, Repr

structure Finished where
  exit : Exit
  out : String
  err : String
  host : Disk.Host

/-- The settings a process takes from its environment. -/
structure Environment where
  level : Option String := none
  crashPoint : Option String := none
  deriving DecidableEq, Repr, Inhabited

/-- The first crash point passed that the environment arms. -/
def stopped (e : Environment) (b : Running) : Option (Cell.Moment Disk.Host) :=
  b.moments.reverse.find? fun m => m.point.isArmed e.crashPoint

def finish (e : Environment) (result : Except Error Json.Value) (b : Running) : Finished :=
  match stopped e b with
  | some m => ⟨.aborted, m.journal.text .out, m.journal.text .err ++ m.point.notice, m.disk⟩
  | none =>
    match result with
    | .ok v => ⟨.code 0, b.journal.text .out ++ printed v, b.journal.text .err, b.disk⟩
    | .error failure => ⟨.code 1, b.journal.text .out, b.journal.text .err ++ failure.display ++ "\n", b.disk⟩

/-- The exit of a process whose arguments are no command. -/
def Usage.exit : Usage → Exit
  | .help | .version => .code 0
  | _ => .code 2

/-- Runs a command in a process of its own. -/
def process (e : Environment) (marks : Cell.Marks) (c : Command) (host : Disk.Host) : Finished :=
  let bench : Running := { disk := host, registry := {}, journal := { least := .fromEnvironment e.level } }
  let (result, bench) := run c marks bench
  finish e result bench

end DurableValue.Cli
