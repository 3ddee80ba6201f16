/-
  DurableValue.Cell.Bench — what the cells of a process share: a disk, the registry of paths in use, and the journal.

  The bench also keeps what an observer may ask for afterwards: the calls that were made to the caller's code, the
  crash points that were passed, each with the disk and the journal as they were at that moment, and the commits that
  were begun.
-/
import DurableValue.Cell.Setup
import DurableValue.CrashPoint
import DurableValue.Journal.Event
import DurableValue.Store.Atomic
import DurableValue.Store.Registry

namespace DurableValue.Cell

/-- A call to the caller's code. Migrations are numbered in their order. -/
inductive Call where
  | produce (producer : Producer)
  | transform
  | handle (e : Codec.Error)
  | applies (migration : Nat)
  | migrate (migration : Nat)
  | cleanUp (migration : Nat)
  deriving DecidableEq, Repr

/-- A crash point as it was passed. -/
structure Moment (F : Type) where
  point : CrashPoint
  disk : F
  journal : Journal

/-- A commit as it was begun: the store, the bytes for it, and the disk before the first phase. -/
structure Commit (F : Type) where
  store : Store.Atomic
  bytes : Bytes
  disk : F

structure Bench (F : Type) where
  disk : F
  registry : Store.Registry
  journal : Journal
  /-- Newest first, each with the disk that the called code could see. -/
  calls : List (Call × F) := []
  /-- Newest first. -/
  moments : List (Moment F) := []
  /-- Newest first. -/
  commits : List (Commit F) := []

namespace Bench

variable {F : Type}

def record (b : Bench F) (c : Call) : Bench F := { b with calls := (c, b.disk) :: b.calls }

def pass (b : Bench F) (p : CrashPoint) : Bench F := { b with moments := ⟨p, b.disk, b.journal⟩ :: b.moments }

def note (b : Bench F) (severity : Journal.Severity) (event : String) (fields : List Journal.Field) : Bench F :=
  { b with journal := b.journal.note severity event fields }

end Bench

end DurableValue.Cell
