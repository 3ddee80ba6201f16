/-
  DurableValue.Cell.Error — why a request to a cell was refused.

  An error is a failure with a code, or the terminal error of a cell that has become final, which holds the error that
  made it so. The source of a failure is the error of the layer below.
-/
import DurableValue.Codec.Basic
import DurableValue.Config.Basic
import DurableValue.Journal.Severity
import DurableValue.Store.Error

namespace DurableValue.Cell

inductive Error.Code where
  | ioFailure
  | dataCorruption
  | transformFailed
  | configInvalid
  | collaboratorFailed
  | terminal
  | cancelled
  | closed
  | internal
  deriving DecidableEq, Repr, Inhabited

namespace Error.Code

def all : List Code :=
  [.ioFailure, .dataCorruption, .transformFailed, .configInvalid, .collaboratorFailed, .terminal, .cancelled,
    .closed, .internal]

def name : Code → String
  | ioFailure => "CELL_IO_FAILURE"
  | dataCorruption => "CELL_DATA_CORRUPTION"
  | transformFailed => "CELL_TRANSFORM_FAILED"
  | configInvalid => "CELL_CONFIG_INVALID"
  | collaboratorFailed => "CELL_COLLABORATOR_FAILED"
  | terminal => "CELL_TERMINAL"
  | cancelled => "CELL_CANCELLED"
  | closed => "CELL_CLOSED"
  | internal => "CELL_INTERNAL"

def severity : Code → Journal.Severity
  | terminal => .fatal
  | _ => .error

end Error.Code

/-- The error of the layer below. -/
inductive Error.Source where
  | storage (e : Store.Error)
  | codec (e : Codec.Error)
  | config (e : Config.Error)
  | text (message : String)
  deriving DecidableEq, Repr

/-- The messages of an error's source, and of the sources behind it. -/
def Error.Source.messages : Error.Source → List String
  | storage e => e.display :: (e.source.map (·.message)).toList
  | codec e => e.display :: e.source.toList
  | config e =>
    e.display :: match e with
      | .read _ e => [e.message]
      | .parse e => [e.message]
      | .invalid _ => []
  | text m => [m]

def Error.Source.display (s : Error.Source) : String :=
  match s with
  | storage e => e.display
  | codec e => e.display
  | config e => e.display
  | text m => m

inductive Error where
  | failure (code : Error.Code) (message : String) (details : Option String) (source : Option Error.Source)
  | terminal (cause : Error) (details : Option String)
  deriving DecidableEq, Repr

namespace Error

def code : Error → Code
  | failure c _ _ _ => c
  | terminal _ _ => .terminal

def message : Error → String
  | failure _ m _ _ => m
  | terminal cause _ => "Cell is final: " ++ cause.message

def details : Error → Option String
  | failure _ _ d _ => d
  | terminal _ d => d

/-- What made the cell final. -/
def cause : Error → Option Error
  | failure _ _ _ _ => none
  | terminal c _ => some c

def source : Error → Option Source
  | failure _ _ _ s => s
  | terminal _ _ => none

def isTerminal (e : Error) : Bool := e.code = .terminal

def severity (e : Error) : Journal.Severity := e.code.severity

def withDetails (d : String) : Error → Error
  | failure c m _ s => failure c m (some d) s
  | terminal c _ => terminal c (some d)

def display (e : Error) : String :=
  "[" ++ e.severity.name ++ "] " ++ e.code.name ++ ": " ++ e.message ++
    (match e.details with
      | none => ""
      | some d => " (" ++ d ++ ")") ++
    (match e.cause, e.source with
      | some c, _ => " (caused by: " ++ c.code.name ++ ")"
      | none, some s => " (caused by: " ++ s.display ++ ")"
      | none, none => "")

/-- The messages of everything behind an error, nearest first. -/
def sources : Error → List String
  | failure _ _ _ none => []
  | failure _ _ _ (some s) => s.messages
  | terminal c _ => c.display :: c.sources

/-! ## The errors of a cell -/

def dataCorruption (e : Codec.Error) : Error :=
  failure .dataCorruption "Stored value is corrupt and no corruption handler is configured" none (some (.codec e))

def codecFailed (e : Codec.Error) : Error :=
  failure .ioFailure ("Codec failed: " ++ e.display) none (some (.codec e))

def transformFailed (reason : String) : Error :=
  failure .transformFailed ("Transform failed: " ++ reason) none (some (.text reason))

def configInvalid (reason : String) : Error := failure .configInvalid reason none none

/-- Here `collaborator` names the caller's code that failed. -/
def collaboratorFailed (collaborator reason : String) : Error :=
  failure .collaboratorFailed (collaborator ++ " failed: " ++ reason) (some ("collaborator: " ++ collaborator))
    (some (.text reason))

def final (cause : Error) : Error := terminal cause none

def cancelled : Error := failure .cancelled "Update was cancelled before it ran" none none

def closed : Error := failure .closed "Cell is closed" none none

def internal (reason : String) : Error := failure .internal reason none none

def ofStore (e : Store.Error) : Error :=
  failure (if e.code.isConfiguration then .configInvalid else .ioFailure) e.message (some e.code.name)
    (some (.storage e))

def ofConfig (e : Config.Error) : Error := failure .configInvalid e.display none (some (.config e))

end Error

end DurableValue.Cell
