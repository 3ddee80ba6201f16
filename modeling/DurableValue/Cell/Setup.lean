/-
  DurableValue.Cell.Setup — what the caller gives a cell: a codec, a place for the file, and code of its own that the
  cell calls.

  Code of the caller returns, fails with a text, or panics. A panic is a failure whose text says so; only a path
  producer and a codec are not guarded. The codec's mishaps are laid down by the number of the call, so that a run can
  be repeated. Its default is made at most once, so whether that panics is laid down at once.
-/
import DurableValue.Cell.Error
import DurableValue.Config.Basic

namespace DurableValue.Cell

/-- How a call of the caller's code ends. A panic may carry something that is not text. -/
inductive Outcome (α : Type) where
  | returned (a : α)
  | failed (reason : String)
  | panicked (payload : Option String)
  deriving DecidableEq, Repr

namespace Outcome

variable {α : Type}

def panicReason (payload : Option String) : String :=
  "panicked: " ++ payload.getD "non-string panic payload"

/-- The result with a panic contained. -/
def result : Outcome α → Except String α
  | returned a => .ok a
  | failed reason => .error reason
  | panicked payload => .error (panicReason payload)

end Outcome

/-- What can befall one call of the codec in place of its answer. -/
inductive Mishap where
  | fails (e : Codec.Error)
  | panics (message : String)
  deriving DecidableEq, Repr

/-- One step from an older form of the value to a newer one. -/
structure Migration (V : Type) where
  name : String
  applies : V → Outcome Bool
  migrate : V → Outcome V
  cleanUp : Outcome Unit

/-- A path that is made when the cell first needs it. -/
inductive Producer where
  | gives (p : Path)
  | panics (message : String)
  deriving DecidableEq, Repr

/-- What the process around a cell makes up: names and a duration that the journal shows. -/
structure Marks where
  /-- The name of the cell in the journal. -/
  instanceId : String
  /-- The milliseconds that an initialization takes. -/
  elapsed : String
  /-- The number under which a background task reports that it panicked. -/
  taskNumber : String
  deriving DecidableEq, Repr, Inhabited

structure Setup (V : Type) where
  codec : Codec V
  /-- What making the codec's default panics with, if it does. -/
  defaultPanic : Option String := none
  decodeMishap : Nat → Option Mishap := fun _ => none
  encodeMishap : Nat → Option Mishap := fun _ => none
  handler : Option (Codec.Error → Outcome V) := none
  migrations : List (Migration V) := []
  /-- The equality by which an update changes nothing. -/
  same : V → V → Bool
  config : Config := {}
  marks : Marks

end DurableValue.Cell
