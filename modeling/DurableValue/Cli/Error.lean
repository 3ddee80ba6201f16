/-
  DurableValue.Cli.Error — what the command line reports when it gives up: a code, and a message that holds all there
  is to say.
-/
import DurableValue.Cell.Error

namespace DurableValue.Cli

inductive Error.Code where
  | config
  | io
  | invalidValue
  | cellFailed
  deriving DecidableEq, Repr

namespace Error.Code

def all : List Code := [.config, .io, .invalidValue, .cellFailed]

def name : Code → String
  | config => "CELL_CLI_CONFIG_ERROR"
  | io => "CELL_CLI_IO_ERROR"
  | invalidValue => "CELL_CLI_INVALID_VALUE"
  | cellFailed => "CELL_CLI_CELL_FAILED"

end Error.Code

structure Error where
  code : Error.Code
  message : String
  deriving DecidableEq, Repr

namespace Error

def display (e : Error) : String := e.code.name ++ ": " ++ e.message

def ofIo (e : Disk.IoError) : Error := ⟨.io, e.message⟩

def ofJson (e : Json.Error) : Error := ⟨.io, "JSON error: " ++ e.message⟩

def ofConfig (e : Config.Error) : Error := ⟨.config, e.display⟩

def ofStore (e : Store.Error) : Error := ⟨.cellFailed, e.display⟩

/-- A terminal error is told with its cause. -/
def ofCell (e : Cell.Error) : Error :=
  match e.cause with
  | none => ⟨.cellFailed, e.display⟩
  | some cause => ⟨.cellFailed, e.display ++ " (" ++ cause.display ++ ")"⟩

def badValue (e : Json.Error) : Error := ⟨.invalidValue, "--value is not valid JSON: " ++ e.message⟩

def cannotOpen (p : Path) (e : Cell.Error) : Error :=
  ⟨.cellFailed, "Cannot open " ++ p.text ++ ": " ++ e.display⟩

end Error

end DurableValue.Cli
