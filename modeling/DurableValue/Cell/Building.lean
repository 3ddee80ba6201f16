/-
  DurableValue.Cell.Building — building a cell: checking its configuration, claiming its path, and putting a worker to
  it.

  A path that is given is claimed at once; one that is to be produced is claimed when it is first needed.
-/
import DurableValue.Cell.Worker

namespace DurableValue.Cell

open Disk (FileSystem)

/-- Where the value is to live. -/
inductive Location where
  | path (p : Path)
  | produced (producer : Producer)
  deriving DecidableEq, Repr

/-- What the journal calls a place that is not known yet. -/
def deferredLabel : String := "<deferred>"

variable {F H V : Type} [FileSystem F H]

/-- The target at a location, and its name in the journal. -/
def claim (s : Setup V) (location : Location) (b : Bench F) : Except Error (Target × String) × Bench F :=
  match location with
  | .produced producer => (.ok (.deferred producer, deferredLabel), b)
  | .path p =>
    let (e, registry) := Store.openExclusive b.disk b.registry p s.config.storeOptions
    ((e.mapError Error.ofStore).map fun e => (.opened e, e.store.path.text), { b with registry := registry })

/-- Builds a cell. There has to be a runtime for its worker, a valid configuration and a place, in this order. -/
def build (s : Setup V) (location : Option Location) (hasRuntime : Bool) (b : Bench F) :
    Except Error (Worker V) × Bench F :=
  if !hasRuntime then (.error (.configInvalid "a cell must be built inside a tokio runtime"), b)
  else match s.config.validate, location with
    | .error e, _ => (.error (.ofConfig e), b)
    | .ok (), none => (.error (.configInvalid "no path configured; call path() or produce_path()"), b)
    | .ok (), some location =>
      match claim s location b with
      | (.error e, b) => (.error e, b)
      | (.ok (target, label), b) =>
        let opened := [("instance", s.marks.instanceId), ("path", label), ("migrations", toString s.migrations.length)]
        (.ok { setup := s, target := target, label := label },
          { b with journal := b.journal.event .cellOpened opened })

end DurableValue.Cell
