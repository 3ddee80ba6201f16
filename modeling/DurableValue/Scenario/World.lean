/-
  DurableValue.Scenario.World — the world of a scripted session: file systems, open files, stores, guards, cells and
  subscriptions, each under a name.

  All of them share one registry of paths and one journal. A file system in memory comes into being when it is first
  named. A cell keeps its number for good; names come and go, and a cell whose last name goes is closed.
-/
import DurableValue.Cell.Building
import DurableValue.Scenario.Collaborators

namespace DurableValue.Scenario

open Cell (Session Worker)

inductive DiskName where
  | memory (name : String)
  | host
  deriving DecidableEq, Repr

/-- A cell that was built, with what is needed to tell of its calls. -/
structure Tenant (V : Type) where
  name : String
  disk : DiskName
  worker : Worker V
  migrations : List Migrating
  /-- The path of the cell if it was known when the cell was built. -/
  file : Option Path

/-- A file open for writing. -/
structure OpenFile where
  disk : DiskName
  handle : Disk.Handle

structure NamedStore where
  disk : DiskName
  store : Store.Atomic

/-- One item of a name, in place of an older one. -/
def keep {α : Type} (name : String) (a : α) (entries : List (String × α)) : List (String × α) :=
  (name, a) :: entries.filter (·.1 != name)

def forget {α : Type} (name : String) (entries : List (String × α)) : List (String × α) :=
  entries.filter (·.1 != name)

structure World (V : Type) where
  kind : Kind V
  /-- Identifiers that are never given twice. -/
  identifier : Nat → String
  fresh : Nat := 0
  memories : List (String × Disk.Memory) := []
  host : Disk.Host
  registry : Store.Registry := {}
  journal : Journal
  files : List (String × OpenFile) := []
  stores : List (String × NamedStore) := []
  /-- The guards of stores opened exclusively, and those acquired by themselves. -/
  storeGuards : List (String × Store.Guard) := []
  guards : List (String × Store.Guard) := []
  tenants : List (Tenant V) := []
  names : List (String × Nat) := []
  /-- The cell and the number of each subscription. -/
  feeds : List (String × Nat × Nat) := []
  /-- What the code given to the cells noted, newest first. -/
  notes : List String := []

namespace World

variable {V : Type}

/-! ## File systems -/

/-- The file system of a name; one in memory is made when it is first named. -/
def disk (w : World V) : DiskName → Disk × World V
  | .host => (.host w.host, w)
  | .memory name =>
    match w.memories.lookup name with
    | some m => (.memory m, w)
    | none =>
      let m : Disk.Memory := { namespaceId := w.identifier w.fresh }
      (.memory m, { w with fresh := w.fresh + 1, memories := (name, m) :: w.memories })

def setDisk (w : World V) (name : DiskName) (d : Disk) : World V :=
  match name, d with
  | .memory name, .memory m => { w with memories := keep name m w.memories }
  | .host, .host h => { w with host := h }
  | _, _ => w

def onDisk {α : Type} (w : World V) (name : DiskName) (f : Disk → α × Disk) : α × World V :=
  let (d, w) := w.disk name
  let (a, d) := f d
  (a, w.setDisk name d)

/-- Gives an open file up, if there is one. -/
def closeFile (w : World V) : Option OpenFile → World V
  | none => w
  | some f => (w.onDisk f.disk fun d => ((), Disk.FileSystem.close d f.handle)).2

def dropGuard (w : World V) : Option Store.Guard → World V
  | none => w
  | some g => { w with registry := w.registry.drop g }

/-! ## Cells -/

def bench (w : World V) (d : Disk) : Cell.Bench Disk := { disk := d, registry := w.registry, journal := w.journal }

/-- Takes back what a bench has become, and the notes of the calls made on it. -/
def absorb (w : World V) (name : DiskName) (notes : Cell.Call × Disk → Option String) (b : Cell.Bench Disk) :
    World V :=
  { w.setDisk name b.disk with
    registry := b.registry
    journal := b.journal
    notes := b.calls.filterMap notes ++ w.notes }

def tenant? (w : World V) (name : String) : Option (Nat × Tenant V) := do
  let i ← w.names.lookup name
  some (i, ← w.tenants[i]?)

/-- Lets a cell do something at a bench of its own disk. -/
def onCell {α : Type} (w : World V) (i : Nat) (f : Session Disk V → α × Session Disk V) : Option (α × World V) := do
  let t ← w.tenants[i]?
  let (d, w) := w.disk t.disk
  let (a, c) := f ⟨t.worker, w.bench d⟩
  let w := w.absorb t.disk (note t.migrations t.file) c.bench
  some (a, { w with tenants := w.tenants.set i { t with worker := c.worker } })

/-- Takes a name from a cell; a cell without a name is closed. -/
def release (w : World V) : Option Nat → World V
  | none => w
  | some i =>
    if w.names.any (·.2 = i) then w
    else match w.onCell i fun c => c.submit [.close] with
      | some (_, w) => w
      | none => w

/-- Names a cell; the cell that had the name loses it. -/
def nameCell (w : World V) (name : String) (i : Nat) : World V :=
  { w with names := keep name i w.names }.release (w.names.lookup name)

/-- Drops the receiver of a subscription. -/
def dropFeed (w : World V) : Option (Nat × Nat) → World V
  | none => w
  | some (i, n) =>
    match w.onCell i fun c => ((), c.onWorker (·.onFeed n Cell.Feed.drop)) with
    | some (_, w) => w
    | none => w

/-- Names a subscription; the one that had the name is dropped. -/
def nameFeed (w : World V) (name : String) (cell feed : Nat) : World V :=
  { w with feeds := keep name (cell, feed) w.feeds }.dropFeed (w.feeds.lookup name)

end World

end DurableValue.Scenario
