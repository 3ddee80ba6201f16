/-
  DurableValue.Disk.Basic — a disk of either kind, so that one program can run cells on both.

  Every operation goes to the disk's own kind. A handle belongs to the kind that opened it; the other kind answers
  that the file is gone.
-/
import DurableValue.Disk.Host
import DurableValue.Disk.Memory

namespace DurableValue

inductive Disk where
  | memory (m : Disk.Memory)
  | host (h : Disk.Host)
  deriving DecidableEq, Repr

namespace Disk

inductive Handle where
  | memory (place : Place)
  | host (number : Nat)
  deriving DecidableEq, Repr

def lift {α β : Type} (wrap : β → Disk) (r : Except IoError α × β) : Except IoError α × Disk := (r.1, wrap r.2)

def gone {α : Type} : Except IoError α := .error (.notFound "file removed while open")

/-- A single call, which says how much it took. -/
def write : Disk → Handle → Bytes → Except IoError Nat × Disk
  | memory m, .memory f, bs => lift memory (m.write f bs)
  | host h, .host f, bs => (.ok bs.length, host (h.write f bs))
  | d, _, _ => (gone, d)

instance : FileSystem Disk Handle where
  read
    | memory m, p => lift memory (m.read p)
    | host h, p => (h.read p, host h)
  create
    | memory m, p => let r := m.create p; (r.1.map .memory, memory r.2)
    | host h, p => let r := h.create p; (r.1.map .host, host r.2)
  append
    | memory m, .memory f, bs => lift memory (FileSystem.append m f bs)
    | host h, .host f, bs => lift host (FileSystem.append h f bs)
    | d, _, _ => (gone, d)
  flush
    | memory m, .memory f => lift memory (FileSystem.flush m f)
    | host h, .host f => lift host (FileSystem.flush h f)
    | d, _ => (gone, d)
  sync
    | memory m, .memory f => lift memory (FileSystem.sync m f)
    | host h, .host f => lift host (FileSystem.sync h f)
    | d, _ => (gone, d)
  close
    | memory m, .memory f => memory (FileSystem.close m f)
    | host h, .host f => host (FileSystem.close h f)
    | d, _ => d
  createDirAll
    | memory m, p => lift memory (m.createDirAll p)
    | host h, p => lift host (h.createDirAll p)
  rename
    | memory m, p, q => lift memory (m.rename p q)
    | host h, p, q => lift host (h.rename p q)
  removeFile
    | memory m, p => lift memory (m.removeFile p)
    | host h, p => lift host (h.removeFile p)
  entryExists
    | memory m, p => (m.entryExists p, memory m)
    | host h, p => (h.entryExists p, host h)
  syncDir
    | memory m, p => lift memory (m.syncDir p)
    | host h, p => (h.syncDir p, host h)
  canonicalKey
    | memory m, p => m.canonicalKey p
    | host h, p => h.canonicalKey p

end Disk

end DurableValue
