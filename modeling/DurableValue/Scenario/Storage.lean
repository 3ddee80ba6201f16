/-
  DurableValue.Scenario.Storage — the steps of a session that work on file systems, stores and the registry without a
  cell.

  A step that names something the world does not have is no step of a session and gives nothing.
-/
import DurableValue.Scenario.Reply
import DurableValue.Scenario.World

namespace DurableValue.Scenario

open Disk (FileSystem)

/-- A step on one file system. -/
inductive DiskStep where
  | put (p : Path) (bs : Bytes)
  | contents (p : Path)
  | listing (p : Path)
  | counts
  | fail (f : Disk.Fault)
  | symlink (p : Path) (target : String)
  | read (p : Path)
  | makeDir (p : Path)
  | remove (p : Path)
  | syncDir (p : Path)
  | rename (source target : Path)
  | doesExist (p : Path)
  | key (p : Path)
  | create (p : Path) (name : String)
  | store (p : Path) (name : String) (o : Store.Options)
  | openExclusive (p : Path) (name : String) (o : Store.Options)
  | isActive (p : Path)

/-- A step on something that has a name, or on the registry. -/
inductive NamedStep where
  | write (file : String) (bs : Bytes)
  | writeAll (file : String) (bs : Bytes)
  | flush (file : String)
  | sync (file : String)
  | closeFile (file : String)
  | dropExclusive (name : String)
  | acquire (p : Path) (name : String)
  | dropGuard (name : String)
  | release (p : Path)
  | isActive (p : Path)
  | storeWrite (store : String) (bs : Bytes)
  | storeRead (store : String)
  | storeExists (store : String)
  | storePlaces (store : String)

namespace World

variable {V : Type}

def contentsOn (d : Disk) (p : Path) : Option Bytes :=
  match d with
  | .memory m => m.contents p
  | .host h => (h.read p).toOption

def listingOf (d : Disk) (p : Path) : Reply V :=
  match d with
  | .memory m => .names (m.listing.map fun f => f.1.path)
  | .host h => .tree (h.listing p)

/-- A step that changes nothing but the disk. -/
def diskOnly (s : DiskStep) (d : Disk) : Option (Reply V × Disk) :=
  let given {α : Type} (good : α → Reply V) (r : Except Disk.IoError α × Disk) : Option (Reply V × Disk) :=
    some (.ofIo good r.1, r.2)
  let unit : Unit → Reply V := fun _ => .done
  match s, d with
  | .put p bs, .memory m => some (.done, .memory (m.put p bs))
  | .put p bs, .host h => some (.done, .host (h.put p bs))
  | .contents p, d => some (.contents (contentsOn d p), d)
  | .listing p, d => some (listingOf d p, d)
  | .counts, .memory m => some (.counts m.reads m.renames, d)
  | .fail f, .memory m => some (.done, .memory (m.arm f))
  | .symlink p target, .host h => some (.done, .host (h.addLink p target))
  | .read p, d => given .bytes (FileSystem.read d p)
  | .makeDir p, d => given unit (FileSystem.createDirAll d p)
  | .remove p, d => given unit (FileSystem.removeFile d p)
  | .syncDir p, d => given unit (FileSystem.syncDir d p)
  | .rename p q, d => given unit (FileSystem.rename d p q)
  | .doesExist p, d =>
    let (doesExist, d) := FileSystem.entryExists d p
    some (.flag doesExist, d)
  | .key p, d => some (.text (FileSystem.canonicalKey d p).text, d)
  | _, _ => none

/-- Keeps a file under a name; an older one of that name is given up after. -/
def keepFile (w : World V) (name : String) (f : OpenFile) : World V :=
  { w with files := keep name f w.files }.closeFile (w.files.lookup name)

def diskStep (w : World V) (on : DiskName) (s : DiskStep) : Option (Reply V × World V) :=
  let (d, w) := w.disk on
  match s with
  | .create p name =>
    match FileSystem.create d p with
    | (.error e, d) => some (.ioFailed e, w.setDisk on d)
    | (.ok h, d) => some (.done, (w.setDisk on d).keepFile name ⟨on, h⟩)
  | .store p name o =>
    match Store.Atomic.new p o with
    | .error e => some (.storeFailed e, w)
    | .ok store => some (.done, { w with stores := keep name ⟨on, store⟩ w.stores })
  | .openExclusive p name o =>
    match Store.openExclusive d w.registry p o with
    | (.error e, registry) => some (.storeFailed e, { w with registry := registry })
    | (.ok e, registry) =>
      let old := w.storeGuards.lookup name
      let w := { w with
        registry := registry
        stores := keep name ⟨on, e.store⟩ w.stores
        storeGuards := keep name e.guard w.storeGuards }
      some (.key e.guard.path, w.dropGuard old)
  | .isActive p => some (.flag (w.registry.isActive (FileSystem.canonicalKey d p)), w)
  | s => (diskOnly s d).map fun r => (r.1, w.setDisk on r.2)

/-- Does something with an open file. -/
def withFile {α : Type} (w : World V) (name : String) (good : α → Reply V)
    (f : Disk → Disk.Handle → Except Disk.IoError α × Disk) : Option (Reply V × World V) :=
  (w.files.lookup name).map fun file =>
    let (r, w) := w.onDisk file.disk fun d => f d file.handle
    (.ofIo good r, w)

/-- Does something with a store. -/
def withStore {α : Type} (w : World V) (name : String) (good : α → Reply V)
    (f : Store.Atomic → Disk → Except Store.Error α × Disk) : Option (Reply V × World V) :=
  (w.stores.lookup name).map fun s =>
    let (r, w) := w.onDisk s.disk (f s.store)
    (.ofStore good r, w)

def namedStep (w : World V) (s : NamedStep) : Option (Reply V × World V) :=
  match s with
  | .write file bs => w.withFile file .wrote fun d h => d.write h bs
  | .writeAll file bs => w.withFile file (fun _ => .done) fun d h => FileSystem.writeAll d h bs
  | .flush file => w.withFile file (fun _ => .done) FileSystem.flush
  | .sync file => w.withFile file (fun _ => .done) FileSystem.sync
  | .closeFile file =>
    let old := w.files.lookup file
    some (.flag old.isSome, { w with files := forget file w.files }.closeFile old)
  | .dropExclusive name =>
    let old := w.storeGuards.lookup name
    some (.flag old.isSome, { w with storeGuards := forget name w.storeGuards }.dropGuard old)
  | .acquire p name =>
    match w.registry.acquire p with
    | (.error e, registry) => some (.storeFailed e, { w with registry := registry })
    | (.ok g, registry) =>
      let old := w.guards.lookup name
      some (.key g.path, { w with registry := registry, guards := keep name g w.guards }.dropGuard old)
  | .dropGuard name =>
    let old := w.guards.lookup name
    some (.flag old.isSome, { w with guards := forget name w.guards }.dropGuard old)
  | .release p => some (.done, { w with registry := w.registry.release p })
  | .isActive p => some (.flag (w.registry.isActive p), w)
  | .storeWrite store bs => w.withStore store (fun _ => .done) fun s d => s.write bs d
  | .storeRead store =>
    w.withStore store (fun r => match r with
      | some bs => .bytes bs
      | none => .nothing) fun s d => s.read d
  | .storeExists store => w.withStore store .flag fun s d =>
    let (doesExist, d) := s.fileExists d
    (.ok doesExist, d)
  | .storePlaces store => w.withStore store .places fun s d => (.ok s, d)

end World

end DurableValue.Scenario
