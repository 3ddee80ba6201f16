/-
  DurableValue.Store.Atomic — replacing the contents of a file as a whole.

  A store writes the new bytes to a scratch file beside the real one, makes them durable, and renames the scratch file
  onto the real path. A write is a walk through phases, one operation of the file system each, so every moment at
  which the process can stop lies between two phases. When a phase fails, the scratch file is discarded and the cause
  is reported; a failure after the rename is reported although the new bytes are in place.
-/
import DurableValue.CrashPoint
import DurableValue.Disk.FileSystem
import DurableValue.Store.Error

namespace DurableValue.Store

open Disk (FileSystem IoError)

def defaultSuffix : String := ".tmp"

/-- Whether a path can be a store's: absolute, and a name in some directory. -/
def checkPath (p : Path) : Except Error Unit :=
  if !p.isAbsolute then .error (.invalidPath p "Path supplied must be an absolute path")
  else match p.parent? with
    | some up =>
      if p.fileName?.isSome && !up.components.isEmpty then .ok ()
      else .error (.invalidPath p "Path supplied must have a parent directory")
    | none => .error (.invalidPath p "Path supplied must have a parent directory")

structure Options where
  scratchSuffix : String := defaultSuffix
  syncDirectory : Bool := true
  deriving DecidableEq, Repr, Inhabited

/-- One file that is only ever replaced as a whole. -/
structure Atomic where
  path : Path
  scratch : Path
  syncDirectory : Bool
  deriving DecidableEq, Repr

/-- What a write does next. -/
inductive Phase (H : Type) where
  | makeParent
  | openScratch
  | fillScratch (h : H)
  | syncScratch (h : H)
  | publish
  | syncParent
  /-- The scratch file has to go because of `cause`; an open handle is given up first. -/
  | discard (h : Option H) (cause : Error)
  | removeScratch (cause : Error)

/-- What follows a phase: another one, or the end of the write. -/
inductive Step (H : Type) where
  | next (phase : Phase H)
  | done (outcome : Except Error Unit)

namespace Phase

variable {H : Type}

/-- An upper bound on the phases from this one on. -/
def remaining : Phase H → Nat
  | makeParent => 8
  | openScratch => 7
  | fillScratch _ => 6
  | syncScratch _ => 5
  | publish => 4
  | discard _ _ => 3
  | removeScratch _ => 2
  | syncParent => 1

/-- The crash points passed on entering a phase. -/
def crashPoints : Phase H → List CrashPoint
  | openScratch => [.beforeScratchWrite]
  | publish => [.afterScratchSync, .beforeRename]
  | syncParent => [.afterRename]
  | _ => []

end Phase

namespace Atomic

def new (p : Path) (o : Options) : Except Error Atomic :=
  (checkPath p).map fun _ => ⟨p, p.withSuffix o.scratchSuffix, o.syncDirectory⟩

/-- The directory of the file; an accepted path has one. -/
def parent (s : Atomic) : Path := s.path.parent?.getD ⟨"/"⟩

variable {F H : Type} [FileSystem F H]

/-! ## Reading -/

def fileExists (s : Atomic) (disk : F) : Bool × F := FileSystem.entryExists disk s.path

/-- The file's bytes, or none when there is no file. -/
def read (s : Atomic) (disk : F) : Except Error (Option Bytes) × F :=
  match FileSystem.read disk s.path with
  | (.ok bs, disk) => (.ok (some bs), disk)
  | (.error e, disk) =>
    if e.kind = .notFound then
      match s.fileExists disk with
      | (true, disk) => (.error (.readFailed s.path e), disk)
      | (false, disk) => (.ok none, disk)
    else (.error (.readFailed s.path e), disk)

/-! ## Writing -/

def parentMissing (s : Atomic) : IoError → Error :=
  .writeFailed ("Unable to create parent directories of " ++ s.path.text)

def scratchNotCreated (s : Atomic) : IoError → Error :=
  .writeFailed ("Failed to create scratch file: " ++ s.scratch.text)

def scratchNotWritten (s : Atomic) : IoError → Error :=
  .writeFailed ("Failed to write scratch file: " ++ s.scratch.text)

def scratchNotSynced (s : Atomic) : IoError → Error := .writeFailed ("fsync failed for: " ++ s.scratch.text)

def parentNotSynced (s : Atomic) : IoError → Error :=
  .writeFailed ("fsync directory failed: " ++ s.parent.text)

/-- Carries one phase of writing `bs` out. -/
def advance (s : Atomic) (bs : Bytes) : Phase H → F → Step H × F
  | .makeParent, disk =>
    match FileSystem.createDirAll disk s.parent with
    | (.ok (), disk) => (.next .openScratch, disk)
    | (.error e, disk) => (.done (.error (s.parentMissing e)), disk)
  | .openScratch, disk =>
    match FileSystem.create disk s.scratch with
    | (.ok h, disk) => (.next (.fillScratch h), disk)
    | (.error e, disk) => (.next (.discard none (s.scratchNotCreated e)), disk)
  | .fillScratch h, disk =>
    match FileSystem.writeAll disk h bs with
    | (.ok (), disk) => (.next (.syncScratch h), disk)
    | (.error e, disk) => (.next (.discard (some h) (s.scratchNotWritten e)), disk)
  | .syncScratch h, disk =>
    match FileSystem.sync disk h with
    | (.ok (), disk) => (.next .publish, FileSystem.close disk h)
    | (.error e, disk) => (.next (.discard (some h) (s.scratchNotSynced e)), disk)
  | .publish, disk =>
    match FileSystem.rename disk s.scratch s.path with
    | (.ok (), disk) => (.next .syncParent, disk)
    | (.error e, disk) => (.next (.discard none (.renameFailed s.scratch s.path e)), disk)
  | .syncParent, disk =>
    if s.syncDirectory then
      match FileSystem.syncDir disk s.parent with
      | (.ok (), disk) => (.done (.ok ()), disk)
      | (.error e, disk) => (.done (.error (s.parentNotSynced e)), disk)
    else (.done (.ok ()), disk)
  | .discard h cause, disk =>
    let disk := match h with
      | none => disk
      | some h => FileSystem.close disk h
    match FileSystem.entryExists disk s.scratch with
    | (true, disk) => (.next (.removeScratch cause), disk)
    | (false, disk) => (.done (.error cause), disk)
  | .removeScratch cause, disk => (.done (.error cause), (FileSystem.removeFile disk s.scratch).2)

/-- Every phase leads to a later one or to the end. -/
theorem remaining_advance {s : Atomic} {bs : Bytes} {phase next : Phase H} {disk : F}
    (step : (s.advance bs phase disk).1 = .next next) : next.remaining < phase.remaining := by
  cases phase <;> simp only [advance] at step <;> (repeat' split at step) <;> cases step <;> simp [Phase.remaining]

/-- The phases from here to the end, each with the disk it starts from. -/
def course (s : Atomic) (bs : Bytes) (phase : Phase H) (disk : F) : List (Phase H × F) :=
  (phase, disk) ::
    match _step : s.advance bs phase disk with
    | (.next phase, disk) => s.course bs phase disk
    | (.done _, _) => []
termination_by phase.remaining
decreasing_by exact remaining_advance (by rw [_step])

/-- Carries the phases from here out until the write is over. -/
def settle (s : Atomic) (bs : Bytes) (phase : Phase H) (disk : F) : Except Error Unit × F :=
  match _step : s.advance bs phase disk with
  | (.next phase, disk) => s.settle bs phase disk
  | (.done outcome, disk) => (outcome, disk)
termination_by phase.remaining
decreasing_by exact remaining_advance (by rw [_step])

/-- Replaces the file's contents by `bs`. -/
def write (s : Atomic) (bs : Bytes) (disk : F) : Except Error Unit × F :=
  s.settle bs (.makeParent (H := H)) disk

/-- The crash points a write passes, in order, with the disk as it is there. -/
def crashPoints (s : Atomic) (bs : Bytes) (disk : F) : List (CrashPoint × F) :=
  (s.course bs (.makeParent (H := H)) disk).flatMap fun m => m.1.crashPoints.map fun p => (p, m.2)

end Atomic

end DurableValue.Store
