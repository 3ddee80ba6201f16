/-
  DurableValue.Journal.Event — the events of a cell's life.

  Only the entry into the final state is fatal; the rest are noted as information unless the place that notes them
  chooses a severity of its own.
-/
import DurableValue.Journal.Basic

namespace DurableValue.Journal

inductive Event where
  | cellOpened
  | cellClosed
  | cellFinal
  | corruptionDetected
  | corruptionRecovered
  | migrationApplied
  | migrationCleanUpFailed
  | commit
  | transformFailed
  | updateCancelled
  | subscribersHigh
  | configLoaded
  deriving DecidableEq, Repr

namespace Event

def all : List Event :=
  [.cellOpened, .cellClosed, .cellFinal, .corruptionDetected, .corruptionRecovered, .migrationApplied,
    .migrationCleanUpFailed, .commit, .transformFailed, .updateCancelled, .subscribersHigh, .configLoaded]

def name : Event → String
  | cellOpened => "CELL_OPENED"
  | cellClosed => "CELL_CLOSED"
  | cellFinal => "CELL_FINAL"
  | corruptionDetected => "CELL_CORRUPTION_DETECTED"
  | corruptionRecovered => "CELL_CORRUPTION_RECOVERED"
  | migrationApplied => "CELL_MIGRATION_APPLIED"
  | migrationCleanUpFailed => "CELL_MIGRATION_CLEANUP_FAILED"
  | commit => "CELL_COMMIT"
  | transformFailed => "CELL_TRANSFORM_FAILED"
  | updateCancelled => "CELL_UPDATE_CANCELLED"
  | subscribersHigh => "CELL_SUBSCRIBERS_HIGH"
  | configLoaded => "CONFIG_LOADED"

def isFatal (e : Event) : Bool := e = cellFinal

def severity (e : Event) : Severity := if e.isFatal then .fatal else .info

end Event

/-- Notes an event at its usual severity. -/
def event (j : Journal) (e : Event) (fields : List Field) : Journal := j.note e.severity e.name fields

end DurableValue.Journal
