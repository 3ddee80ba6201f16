/-
  DurableValue.Disk.FileSystem — what a store asks of a file system.

  Each operation is one primitive: it takes the state of the disk and returns its answer with the state after it, also
  when it fails. A handle is a token; whatever an open file remembers is part of the disk. Appending is one primitive
  too, however often it has to call; how much a single call takes is left to the kind of disk.
-/
import DurableValue.Disk.IoError
import DurableValue.Path
import DurableValue.Text.Bytes

namespace DurableValue.Disk

class FileSystem (F : Type) (H : outParam Type) where
  read : F → Path → Except IoError Bytes × F
  /-- Opens a file for writing, empty. -/
  create : F → Path → Except IoError H × F
  /-- Appends all of the bytes to an open file, in as many calls as that takes: what a call did not take goes into the
  next one, and a call that was interrupted is made again. It fails where a call fails or takes nothing, and then some
  first bytes may stand in the file. -/
  append : F → H → Bytes → Except IoError Unit × F
  flush : F → H → Except IoError Unit × F
  /-- Flushes and makes the file's contents durable. -/
  sync : F → H → Except IoError Unit × F
  /-- Gives the handle up. What was not flushed is flushed now. -/
  close : F → H → F
  /-- Makes a directory and those above it that are missing. -/
  createDirAll : F → Path → Except IoError Unit × F
  rename : F → Path → Path → Except IoError Unit × F
  removeFile : F → Path → Except IoError Unit × F
  entryExists : F → Path → Bool × F
  /-- Makes the entries of a directory durable. -/
  syncDir : F → Path → Except IoError Unit × F
  /-- The key under which a path's owner is registered. -/
  canonicalKey : F → Path → Path

namespace FileSystem

variable {F H : Type} [FileSystem F H]

/-- Writes all of `bs`. With nothing to write there is no call. -/
def writeAll (disk : F) (h : H) (bs : Bytes) : Except IoError Unit × F :=
  if bs.isEmpty then (.ok (), disk) else append disk h bs

end FileSystem

end DurableValue.Disk
