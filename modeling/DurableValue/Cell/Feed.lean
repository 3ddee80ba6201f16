/-
  DurableValue.Cell.Feed — a subscription: everything that was sent to it, and how much of that its receiver has
  taken.

  The sender's end can be let go, after which the receiver still takes what was sent and then sees the end. The
  receiver can be dropped, after which nothing can be sent.
-/
import DurableValue.Cell.Error

namespace DurableValue.Cell

structure Feed (V : Type) where
  /-- Oldest first. -/
  sent : List (Except Error V) := []
  taken : Nat := 0
  /-- Whether the sender's end is still held. -/
  isOpen : Bool := true
  isDropped : Bool := false

/-- What a receiver sees when it asks for the next item. -/
inductive Feed.Next (V : Type) where
  | item (i : Except Error V)
  | pending
  | ended

namespace Feed

variable {V : Type}

/-- Adds an item, unless the receiver is gone. -/
def send (f : Feed V) (i : Except Error V) : Feed V :=
  if f.isDropped then f else { f with sent := f.sent ++ [i] }

/-- Lets the sender's end go. -/
def finish (f : Feed V) : Feed V := { f with isOpen := false }

def drop (f : Feed V) : Feed V := { f with isDropped := true }

def next (f : Feed V) : Next V × Feed V :=
  match f.sent[f.taken]? with
  | some i => (.item i, { f with taken := f.taken + 1 })
  | none => (if f.isOpen then .pending else .ended, f)

/-- Takes everything that is there. -/
def drain (f : Feed V) : List (Except Error V) × Feed V :=
  (f.sent.drop f.taken, { f with taken := f.sent.length })

end Feed

end DurableValue.Cell
