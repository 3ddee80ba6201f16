/-
  DurableValue.Config.Basic — the configuration of a cell.

  It is a JSON record whose fields all have defaults; a field it does not know is refused. A suffix has to make a
  sibling of the file, so it is neither empty nor able to leave the directory.
-/
import DurableValue.Codec.Json
import DurableValue.Disk.Host
import DurableValue.Journal.Event
import DurableValue.Store.Atomic

namespace DurableValue

structure Config where
  scratchSuffix : String := Store.defaultSuffix
  syncDirectory : Bool := true
  /-- More live subscriptions than this are worth a warning. -/
  warnThreshold : Int := 1024
  deriving DecidableEq, Repr, Inhabited

namespace Config

inductive Error where
  | read (path : String) (e : Disk.IoError)
  | parse (e : Json.Error)
  | invalid (reason : String)
  deriving DecidableEq, Repr

def Error.display : Error → String
  | read path e => "Failed to read config " ++ path ++ ": " ++ e.message
  | parse e => "Invalid config JSON: " ++ e.message
  | invalid reason => "Invalid config: " ++ reason

open Json

/-- A configuration whose fields are not all read yet. -/
structure Partial where
  scratchSuffix : Option String := none
  syncDirectory : Option Bool := none
  warnThreshold : Option Int := none

/-- What was not read has its default. -/
def ofPartial (p : Partial) : Config :=
  let base : Config := {}
  ⟨p.scratchSuffix.getD base.scratchSuffix, p.syncDirectory.getD base.syncDirectory,
    p.warnThreshold.getD base.warnThreshold⟩

def record : Record Partial Config where
  expected := "struct CellConfig"
  fields := [
    ⟨"scratch_suffix", (·.scratchSuffix.isSome),
      fun p => do return { p with scratchSuffix := some (← Shape.string) }, true⟩,
    ⟨"sync_directory", (·.syncDirectory.isSome),
      fun p => do return { p with syncDirectory := some (← Shape.bool) }, true⟩,
    ⟨"subscriber_warn_threshold", (·.warnThreshold.isSome),
      fun p => do return { p with warnThreshold := some (← Shape.usize) }, true⟩]
  isStrict := true
  blank := {}
  finish p := .ok (ofPartial p)

def format : Codec.Format Config where
  default := {}
  read := record.read
  toValue c :=
    .object [("scratch_suffix", .string c.scratchSuffix), ("sync_directory", .bool c.syncDirectory),
      ("subscriber_warn_threshold", .int c.warnThreshold)]

def validate (c : Config) : Except Error Unit :=
  if c.scratchSuffix.isEmpty then .error (.invalid "scratch_suffix must not be empty")
  else if c.scratchSuffix.toList.contains '/' then
    .error (.invalid ("scratch_suffix '" ++ c.scratchSuffix ++ "' must not contain a path separator"))
  else if c.warnThreshold = 0 then .error (.invalid "subscriber_warn_threshold must be > 0")
  else .ok ()

def storeOptions (c : Config) : Store.Options := ⟨c.scratchSuffix, c.syncDirectory⟩

/-- Reads and checks a configuration. -/
def parse (text : String) : Except Error Config :=
  match format.parse text with
  | .error e => .error (.parse e)
  | .ok c => c.validate.map fun _ => c

def textOf (p : Path) (contents : Except Disk.IoError Bytes) : Except Error String :=
  match contents with
  | .error e => .error (.read p.text e)
  | .ok bs =>
    match Text.decode? bs with
    | none => .error (.read p.text .notText)
    | some s => .ok s

/-- Loads a configuration from a file of the host and notes what was loaded. -/
def load (h : Disk.Host) (p : Path) (j : Journal) : Except Error Config × Journal :=
  match (textOf p (h.read p)).bind parse with
  | .error e => (.error e, j)
  | .ok c =>
    (.ok c, j.event .configLoaded [("path", p.text), ("scratch_suffix", c.scratchSuffix),
      ("sync_directory", if c.syncDirectory then "true" else "false")])

end Config

end DurableValue
