/-
  DurableValue.Scenario.Reply — what the steps of a scripted session answer.
-/
import DurableValue.Cell.State
import DurableValue.Config.Basic
import DurableValue.Counters
import DurableValue.Disk.Memory

namespace DurableValue.Scenario

inductive Reply (V : Type) where
  | done
  | closed
  | nothing
  | flag (b : Bool)
  | text (s : String)
  | key (p : Path)
  | names (ps : List Path)
  | tree (entries : List (String × Option Bytes))
  | counts (reads renames : Nat)
  | contents (bs : Option Bytes)
  | bytes (bs : Bytes)
  | wrote (n : Nat)
  | places (store : Store.Atomic)
  | counters (c : Counters)
  | sameInstance (b : Bool)
  | value (v : V)
  | pending
  | ended
  | several (rs : List (Reply V))
  | ioFailed (e : Disk.IoError)
  | storeFailed (e : Store.Error)
  | configFailed (e : Config.Error)
  | cellFailed (e : Cell.Error)

namespace Reply

variable {V : Type}

def ofIo {α : Type} (good : α → Reply V) : Except Disk.IoError α → Reply V
  | .ok a => good a
  | .error e => ioFailed e

def ofStore {α : Type} (good : α → Reply V) : Except Store.Error α → Reply V
  | .ok a => good a
  | .error e => storeFailed e

def ofCell : Except Cell.Error V → Reply V
  | .ok v => value v
  | .error e => cellFailed e

end Reply

end DurableValue.Scenario
