/-
  DurableValue.Disk.Memory — a file system held in memory, with faults that can be armed.

  Files and directories are named by their places, so every spelling of a path reaches the same entry. Six faults can
  be armed; each makes the next operation of its kind fail once, and an armed write is torn: half of the bytes arrive.
  The two counters serve tests. The namespace sets the keys of one instance apart from those of every other.
-/
import DurableValue.Disk.FileSystem

namespace DurableValue.Disk

/-- The operations that can be made to fail once. -/
inductive Fault where
  | read
  | write
  | sync
  | rename
  | createDir
  | syncDir
  deriving DecidableEq, Repr

def Fault.operation : Fault → String
  | .read => "read"
  | .write => "write"
  | .sync => "sync"
  | .rename => "rename"
  | .createDir => "create_dir"
  | .syncDir => "sync_dir"

def Fault.error (f : Fault) : IoError := .other ("injected " ++ f.operation ++ " failure")

structure Memory where
  files : List (Place × Bytes) := []
  dirs : List Place := []
  armed : List Fault := []
  reads : Nat := 0
  renames : Nat := 0
  /-- What the keys of this instance start with, unique to it. -/
  namespaceId : String
  deriving DecidableEq, Repr, Inhabited

namespace Memory

/-! ## The tree -/

def get? (m : Memory) (p : Place) : Option Bytes := m.files.lookup p

def erase (m : Memory) (p : Place) : Memory := { m with files := m.files.filter fun f => f.1 != p }

def set (m : Memory) (p : Place) (bs : Bytes) : Memory :=
  { m with files := (p, bs) :: (m.erase p).files }

def hasDir (m : Memory) (p : Place) : Bool := m.dirs.contains p

/-- Adds the directory and those above it; the top is never stored. -/
def addDirs (m : Memory) (p : Place) : Memory :=
  { m with dirs := p.ancestors.foldl (fun ds d => if ds.contains d then ds else d :: ds) m.dirs }

/-- Whether an entry may be made at `p`: the directory above it is there. -/
def parentExists (m : Memory) (p : Place) : Bool :=
  match p.parent? with
  | none => true
  | some d => d.isTop || m.hasDir d

/-- The stored files in the order of their paths. -/
def listing (m : Memory) : List (Place × Bytes) := m.files.mergeSort fun a b => a.1.le b.1

/-! ## Faults -/

def arm (m : Memory) (f : Fault) : Memory := { m with armed := f :: m.armed.erase f }

def isArmed (m : Memory) (f : Fault) : Bool := m.armed.contains f

def disarm (m : Memory) (f : Fault) : Memory := { m with armed := m.armed.filter (· != f) }

/-- Runs an operation unless its fault is armed; the fault is spent either way. -/
def guarded {α : Type} (m : Memory) (f : Fault) (run : Memory → Except IoError α × Memory) :
    Except IoError α × Memory :=
  if m.isArmed f then (.error f.error, m.disarm f) else run m

/-! ## Outside the file system's own operations -/

/-- Stores a file with the directories above it, as a test sets the scene. -/
def put (m : Memory) (p : Path) (bs : Bytes) : Memory :=
  let p := p.place
  let m := match p.parent? with
    | none => m
    | some d => m.addDirs d
  m.set p bs

def contents (m : Memory) (p : Path) : Option Bytes := m.get? p.place

/-! ## Operations -/

def noFile (p : Place) : IoError := .notFound ("no such file: " ++ p.path.text)

def noParent (p : Place) : IoError := .notFound ("parent directory missing: " ++ p.path.text)

def read (m : Memory) (p : Path) : Except IoError Bytes × Memory :=
  { m with reads := m.reads + 1 }.guarded .read fun m =>
    match m.get? p.place with
    | some bs => (.ok bs, m)
    | none => (.error (noFile p.place), m)

def create (m : Memory) (p : Path) : Except IoError Place × Memory :=
  let p := p.place
  if m.parentExists p then (.ok p, m.set p []) else (.error (noParent p), m)

/-- The handle of an open file is its place. An armed fault is spent even if the file is gone. -/
def write (m : Memory) (h : Place) (bs : Bytes) : Except IoError Nat × Memory :=
  let torn := m.isArmed .write
  let m := m.disarm .write
  match m.get? h with
  | none => (.error (.notFound "file removed while open"), m)
  | some old =>
    if torn then (.error Fault.write.error, m.set h (old ++ bs.take (bs.length / 2)))
    else (.ok bs.length, m.set h (old ++ bs))

/-- A file in memory takes everything in one call. -/
def append (m : Memory) (h : Place) (bs : Bytes) : Except IoError Unit × Memory :=
  ((m.write h bs).1.map fun _ => (), (m.write h bs).2)

def sync (m : Memory) (_ : Place) : Except IoError Unit × Memory :=
  m.guarded .sync fun m => (.ok (), m)

def createDirAll (m : Memory) (p : Path) : Except IoError Unit × Memory :=
  m.guarded .createDir fun m => (.ok (), m.addDirs p.place)

def rename (m : Memory) (source target : Path) : Except IoError Unit × Memory :=
  m.guarded .rename fun m =>
    let a := source.place
    let b := target.place
    if !m.parentExists b then (.error (noParent b), m)
    else match m.get? a with
      | none => (.error (noFile a), m)
      | some bs => (.ok (), { (m.erase a).set b bs with renames := m.renames + 1 })

def removeFile (m : Memory) (p : Path) : Except IoError Unit × Memory :=
  match m.get? p.place with
  | none => (.error (.notFound "no such file"), m)
  | some _ => (.ok (), m.erase p.place)

def entryExists (m : Memory) (p : Path) : Bool := (m.get? p.place).isSome || m.hasDir p.place

def syncDir (m : Memory) (_ : Path) : Except IoError Unit × Memory :=
  m.guarded .syncDir fun m => (.ok (), m)

/-- The key of a path: the instance's own root, then the names of the path's place. -/
def canonicalKey (m : Memory) (p : Path) : Path :=
  (Path.mk ("/memory-" ++ m.namespaceId)).join { p.place with rooted := false }.path

instance : FileSystem Memory Place where
  read := read
  create := create
  append := append
  flush m _ := (.ok (), m)
  sync := sync
  close m _ := m
  createDirAll := createDirAll
  rename := rename
  removeFile := removeFile
  entryExists m p := (m.entryExists p, m)
  syncDir := syncDir
  canonicalKey := canonicalKey

end Memory

end DurableValue.Disk
