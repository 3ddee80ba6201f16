/-
  DurableValue.Scenario.Script — scripted sessions: steps, one after the other, in one world.

  Each step answers with its reply, the status of the cell it names, the calls that the cells made to the code given
  to them, and the lines that the journal gained.
-/
import DurableValue.Scenario.Cells
import DurableValue.Scenario.Storage

namespace DurableValue.Scenario

inductive Step (V : Type) where
  | onDisk (disk : DiskName) (s : DiskStep)
  | onNamed (s : NamedStep)
  | build (p : Plan V)
  | onCell (cell : String) (s : CellStep V)
  | drop (cell : String)
  | onFeed (feed : String) (s : FeedStep)

/-- The cell that a step names. -/
def Step.subject {V : Type} : Step V → Option String
  | build p => some p.name
  | onCell cell _ => some cell
  | drop cell => some cell
  | _ => none

structure Answered (V : Type) where
  reply : Reply V
  status : Option Cell.Status
  calls : List String
  journal : Journal

namespace World

variable {V : Type}

def step (w : World V) : Step V → Option (Reply V × World V)
  | .onDisk disk s => w.diskStep disk s
  | .onNamed s => w.namedStep s
  | .build p => some (w.build p)
  | .onCell cell s => w.cellStep cell s
  | .drop cell => some (w.dropCell cell)
  | .onFeed feed s => w.feedStep feed s

/-- Takes a step with the notes and the journal empty, so that what it leaves there is its own. -/
def answer (w : World V) (s : Step V) : Option (Answered V × World V) := do
  let (reply, w) ← { w with notes := [], journal := w.journal.emptied }.step s
  let status := (s.subject.bind w.tenant?).map fun t => t.2.worker.status
  some (⟨reply, status, w.notes.reverse, w.journal⟩, w)

/-- Runs a script to its end. A step that names what is not there spoils the whole script. -/
def run (w : World V) : List (Step V) → Option (List (Answered V) × World V)
  | [] => some ([], w)
  | s :: rest => do
    let (a, w) ← w.answer s
    let (as, w) ← w.run rest
    some (a :: as, w)

end World

end DurableValue.Scenario
