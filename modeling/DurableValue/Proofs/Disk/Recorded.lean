/-
  DurableValue.Proofs.Disk.Recorded — a file system that keeps a list of what it was asked.

  Every operation is passed on to the file system behind it and put on the list, with its answer left out. What holds
  of every file system holds of a recorded one, and there it says what was asked: of a cell that does not touch its
  disk, that nothing was; of an initialization, how often the value was read (`reads_read`, `reads_write`).
-/
import DurableValue.Proofs.Store.Keeper

namespace DurableValue.Disk

/-- What may be asked of a file system. Keys are left out: they are read off a path and change nothing. -/
inductive Operation (H : Type) where
  | read (p : Path)
  | create (p : Path)
  | append (h : H) (bs : Bytes)
  | flush (h : H)
  | sync (h : H)
  | close (h : H)
  | createDirAll (p : Path)
  | rename (source target : Path)
  | removeFile (p : Path)
  | entryExists (p : Path)
  | syncDir (p : Path)
  deriving DecidableEq, Repr

def Operation.isRead {H : Type} : Operation H → Bool
  | read _ => true
  | _ => false

structure Recorded (F H : Type) where
  disk : F
  /-- Newest first. -/
  asked : List (Operation H) := []

namespace Recorded

variable {F H : Type}

def ask {α : Type} (d : Recorded F H) (o : Operation H) (run : F → α × F) : α × Recorded F H :=
  ((run d.disk).1, ⟨(run d.disk).2, o :: d.asked⟩)

instance [FileSystem F H] : FileSystem (Recorded F H) H where
  read d p := d.ask (.read p) (FileSystem.read · p)
  create d p := d.ask (.create p) (FileSystem.create · p)
  append d h bs := d.ask (.append h bs) (FileSystem.append · h bs)
  flush d h := d.ask (.flush h) (FileSystem.flush · h)
  sync d h := d.ask (.sync h) (FileSystem.sync · h)
  close d h := ⟨FileSystem.close d.disk h, .close h :: d.asked⟩
  createDirAll d p := d.ask (.createDirAll p) (FileSystem.createDirAll · p)
  rename d a b := d.ask (.rename a b) (FileSystem.rename · a b)
  removeFile d p := d.ask (.removeFile p) (FileSystem.removeFile · p)
  entryExists d p := d.ask (.entryExists p) (FileSystem.entryExists · p)
  syncDir d p := d.ask (.syncDir p) (FileSystem.syncDir · p)
  canonicalKey d p := FileSystem.canonicalKey d.disk p

def reads (d : Recorded F H) : Nat := d.asked.countP (·.isRead)

/-- A change to the disk by other hands, which asks nothing through this file system. -/
def lift (f : F → F) (d : Recorded F H) : Recorded F H := { d with disk := f d.disk }

@[simp] theorem reads_lift (f : F → F) (d : Recorded F H) : (d.lift f).reads = d.reads := rfl

end Recorded

end DurableValue.Disk

namespace DurableValue.Store.Atomic

open Disk (FileSystem Recorded)

variable {F H : Type} [FileSystem F H] {s : Atomic} {bs : Bytes}

/-- Reading a store reads one file. -/
theorem reads_read (disk : Recorded F H) : (s.read disk).2.reads = disk.reads + 1 := by
  have read : (FileSystem.read disk s.path).2.reads = disk.reads + 1 := List.countP_cons_of_pos rfl
  have looked (d : Recorded F H) : (s.fileExists d).2.reads = d.reads := rfl
  unfold Atomic.read
  split
  · rename_i h
    rw [h] at read
    exact read
  · rename_i d h
    rw [h] at read
    split
    · have same := looked d
      split <;> rename_i h' <;> rw [h'] at same <;> exact same.trans read
    · exact read

theorem reads_writeAll (disk : Recorded F H) (h : H) : (FileSystem.writeAll disk h bs).2.reads = disk.reads := by
  unfold FileSystem.writeAll
  split <;> rfl

theorem reads_advance (phase : Phase H) (disk : Recorded F H) : (s.advance bs phase disk).2.reads = disk.reads := by
  -- No operation but `read` counts, and no phase asks for that one.
  have after {α : Type} {r : α × Recorded F H} {a : α} {d : Recorded F H} (step : r = (a, d))
      (kept : r.2.reads = disk.reads) : d.reads = disk.reads := by rwa [step] at kept
  cases phase <;> simp only [advance]
  case makeParent => split <;> exact after ‹_› rfl
  case openScratch => split <;> exact after ‹_› rfl
  case fillScratch => split <;> exact after ‹_› (reads_writeAll _ _)
  case syncScratch h =>
    split
    · rename_i d synced
      have closed : (FileSystem.close d h).reads = d.reads := rfl
      exact closed.trans (after synced rfl)
    · exact after ‹_› rfl
  case publish => split <;> exact after ‹_› rfl
  case syncParent =>
    split
    · split <;> exact after ‹_› rfl
    · rfl
  case discard h cause => cases h <;> (split <;> exact after ‹_› rfl)
  case removeScratch => rfl

/-- Writing a store reads no file. -/
theorem reads_write (disk : Recorded F H) : (s.write bs disk).2.reads = disk.reads := by
  suffices h : ∀ phase disk, (s.settle bs phase disk).2.reads = Recorded.reads disk from h .makeParent disk
  intro phase disk
  induction phase, disk using @walk_induction (Recorded F H) H _ s bs with
  | h phase disk ih =>
    have kept : (s.advance bs phase disk).2.reads = disk.reads := reads_advance phase disk
    rcases step : s.advance bs phase disk with ⟨next | outcome, disk'⟩ <;> rw [step] at kept
    · rw [settle_next step]
      exact (ih next disk' step).trans kept
    · rw [settle_done step]
      exact kept

end DurableValue.Store.Atomic
