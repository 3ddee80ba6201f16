/-
  DurableValue.Store.Error — why a store refused or failed: a code, a message for people, and the failure of the file
  system behind it.
-/
import DurableValue.Disk.IoError
import DurableValue.Path

namespace DurableValue.Store

inductive Error.Code where
  | readFailed
  | writeFailed
  | renameFailed
  | invalidPath
  | pathInUse
  deriving DecidableEq, Repr

namespace Error.Code

def all : List Code := [.readFailed, .writeFailed, .renameFailed, .invalidPath, .pathInUse]

def name : Code → String
  | readFailed => "CELL_STORAGE_READ_FAILED"
  | writeFailed => "CELL_STORAGE_WRITE_FAILED"
  | renameFailed => "CELL_STORAGE_RENAME_FAILED"
  | invalidPath => "CELL_STORAGE_INVALID_PATH"
  | pathInUse => "CELL_STORAGE_PATH_IN_USE"

/-- Whether the fault lies in what the caller asked for, not in the disk. -/
def isConfiguration : Code → Bool
  | invalidPath | pathInUse => true
  | _ => false

end Error.Code

structure Error where
  code : Error.Code
  message : String
  details : Option String
  source : Option Disk.IoError
  deriving DecidableEq, Repr

namespace Error

def readFailed (p : Path) (e : Disk.IoError) : Error := ⟨.readFailed, "Failed to read: " ++ p.text, none, some e⟩

def writeFailed (message : String) (e : Disk.IoError) : Error := ⟨.writeFailed, message, none, some e⟩

def renameFailed (source target : Path) (e : Disk.IoError) : Error :=
  ⟨.renameFailed, "Failed to rename " ++ source.text ++ " onto " ++ target.text, none, some e⟩

def invalidPath (p : Path) (reason : String) : Error := ⟨.invalidPath, reason, some ("path: " ++ p.text), none⟩

def pathInUse (p : Path) : Error :=
  ⟨.pathInUse,
    "There are multiple cells active for the same file: " ++ p.text ++
      ". Keep one cell per file and close it before opening another",
    none, none⟩

def withDetails (e : Error) (details : String) : Error := { e with details := some details }

def display (e : Error) : String :=
  "[ERROR] " ++ e.code.name ++ ": " ++ e.message ++
    (match e.details with
      | none => ""
      | some d => " (" ++ d ++ ")") ++
    (match e.source with
      | none => ""
      | some s => " (caused by: " ++ s.message ++ ")")

end Error

end DurableValue.Store
