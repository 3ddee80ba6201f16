/-
  DurableValue.Proofs.Store.Leftover — what becomes of the scratch file.

  Once the directories of its file are made, a write in memory leaves no scratch file behind, however it ends and
  whatever an earlier process left there: the rename takes the file away, and every failure up to the rename discards
  it. Before that there is one way out. When the directories cannot be made the write is over with nothing done.

  Proved:
  - `cleared_advance`: a phase behind the first goes on with the scratch file, or leaves none (one step).
  - `clears_settle`: so the rest of a write leaves none.
  - `only_a_refused_directory_leaves_the_scratch_file`: a scratch file that was there stays just when the directories
    cannot be made, although the store means to remove it after any failure before the rename
    (`a_scratch_file_outlives_a_refused_directory`).
-/
import DurableValue.Proofs.Store.Replacement

namespace DurableValue.Store

open Disk (FileSystem Memory Fault)

namespace Atomic

/-- Whether a write that goes on with this phase is sure to leave no scratch file. Behind the rename the file has to be
gone already, since the sync of the directory does not look for it. -/
def Clears (s : Atomic) : Phase Place → Memory → Prop
  | .makeParent, _ => False
  | .syncParent, m => m.get? s.scratch.place = none
  | _, _ => True

def Cleared (s : Atomic) : Step Place × Memory → Prop
  | (.next phase, m) => s.Clears phase m
  | (.done _, m) => m.get? s.scratch.place = none

variable {s : Atomic} {bs : Bytes}

theorem get?_removeFile (m : Memory) (p : Path) : (m.removeFile p).2.get? p.place = none := by
  unfold Memory.removeFile
  cases held : m.get? p.place with
  | none => exact held
  | some old => simp

/-- A rename that succeeds takes the file away from its old place. -/
theorem cleared_publish (m : Memory) (apart : s.scratch.place ≠ s.path.place) :
    s.Cleared (s.advance bs .publish m) := by
  have renamed : FileSystem.rename m s.scratch s.path = m.rename s.scratch s.path := rfl
  rcases m.rename_cases s.scratch s.path with ⟨⟨e, failed⟩, -⟩ | ⟨ok, b, -, moved⟩
  · simp only [advance, renamed]
    rw [show m.rename s.scratch s.path = (.error e, (m.rename s.scratch s.path).2) from Prod.ext failed rfl]
    trivial
  · have gone : (m.rename s.scratch s.path).2.get? s.scratch.place = none := by
      rw [moved, if_neg apart, if_pos rfl]
    simp only [advance, renamed]
    rw [show m.rename s.scratch s.path = (.ok (), (m.rename s.scratch s.path).2) from Prod.ext ok rfl]
    exact gone

/-- A scratch file that is discarded is removed if it is there. -/
theorem cleared_discard (h : Option Place) (cause : Error) (m : Memory) :
    s.Cleared (s.advance bs (.discard h cause) m) := by
  -- Giving a handle up changes nothing in memory, so the look is at the same disk either way.
  have same : s.advance bs (.discard h cause) m = s.sweep cause m := by
    cases h <;> rfl
  rw [same]
  have look : FileSystem.entryExists m s.scratch = (m.entryExists s.scratch, m) := rfl
  unfold sweep
  rw [look]
  cases found : m.entryExists s.scratch with
  | true => trivial
  | false =>
    simp only [Memory.entryExists, Bool.or_eq_false_iff, Option.isSome_eq_false_iff, Option.isNone_iff_eq_none] at found
    exact found.1

theorem cleared_syncParent (m : Memory) (gone : m.get? s.scratch.place = none) :
    s.Cleared (s.advance bs .syncParent m) := by
  have kept : (FileSystem.syncDir m s.parent).2.get? s.scratch.place = none := (m.syncDir_get? s.parent _).trans gone
  simp only [advance]
  split
  · split
    · rename_i synced
      rw [synced] at kept
      exact kept
    · rename_i synced
      rw [synced] at kept
      exact kept
  · exact gone

/-- Every phase behind the first keeps the promise. -/
theorem cleared_advance {phase : Phase Place} {m : Memory} (apart : s.scratch.place ≠ s.path.place)
    (clears : s.Clears phase m) : s.Cleared (s.advance bs phase m) := by
  cases phase with
  | makeParent => exact clears.elim
  | openScratch => simp only [advance]; split <;> trivial
  | fillScratch h => simp only [advance]; split <;> trivial
  | syncScratch h => simp only [advance]; split <;> trivial
  | publish => exact cleared_publish m apart
  | syncParent => exact cleared_syncParent m clears
  | discard h cause => exact cleared_discard h cause m
  | removeScratch cause => exact get?_removeFile m s.scratch

/-- So does a write from there to its end. -/
theorem clears_settle (apart : s.scratch.place ≠ s.path.place) (phase : Phase Place) (m : Memory)
    (clears : s.Clears phase m) : (s.settle bs phase m).2.get? s.scratch.place = none := by
  induction phase, m using @walk_induction Memory Place _ s bs with
  | h phase m ih =>
    have cleared : s.Cleared (s.advance bs phase m) := cleared_advance apart clears
    rcases step : s.advance bs phase m with ⟨next | outcome, m'⟩
    · rw [step] at cleared
      rw [settle_next step]
      exact ih next m' step cleared
    · rw [step] at cleared
      rw [settle_done step]
      exact cleared

/-- A write whose directories cannot be made ends there, with its fault spent and nothing else done. -/
theorem write_refused {m : Memory} (armed : m.isArmed .createDir = true) :
    s.write bs m = (.error (s.parentMissing Fault.createDir.error), m.disarm .createDir) := by
  have made : FileSystem.createDirAll m s.parent = m.createDirAll s.parent := rfl
  apply settle_done
  simp only [advance, made, Memory.createDirAll, Memory.guarded, armed, if_true]

theorem write_cleared {m : Memory} (apart : s.scratch.place ≠ s.path.place) (unarmed : m.isArmed .createDir = false) :
    (s.write bs m).2.get? s.scratch.place = none := by
  have made : FileSystem.createDirAll m s.parent = (.ok (), m.addDirs s.parent.place) := by
    show m.createDirAll s.parent = _
    simp only [Memory.createDirAll, Memory.guarded, unarmed, Bool.false_eq_true, if_false]
  have step : s.advance bs .makeParent m = (.next .openScratch, m.addDirs s.parent.place) := by
    simp only [advance, made]
  rw [write, settle_next step]
  exact clears_settle apart _ _ trivial

/-- **Only a write whose directories cannot be made leaves the scratch file behind.** Behind every other write, whether
it returned or failed, there is none, whatever the disk held before and whatever faults were armed. The one exception
changes no file at all, reports the missing directories, and the next write clears what it left. -/
theorem only_a_refused_directory_leaves_the_scratch_file (s : Atomic) (bs : Bytes) (m : Memory)
    (apart : s.scratch.place ≠ s.path.place) :
    (m.isArmed .createDir = false → (s.write bs m).2.get? s.scratch.place = none) ∧
    (m.isArmed .createDir = true →
      (s.write bs m).1 = .error (s.parentMissing Fault.createDir.error) ∧
      (∀ q, (s.write bs m).2.get? q = m.get? q) ∧
      ∀ bs', (s.write bs' (s.write bs m).2).2.get? s.scratch.place = none) := by
  refine ⟨write_cleared apart, fun armed => ?_⟩
  rw [write_refused armed]
  refine ⟨rfl, fun q => rfl, fun bs' => write_cleared apart ?_⟩
  rw [Memory.isArmed_disarm]
  simp

/-- A write that is torn finds an old scratch file and leaves none. -/
theorem a_torn_write_clears_an_old_scratch_file :
    let s : Atomic := ⟨⟨"/d/v"⟩, ⟨"/d/v.tmp"⟩, true⟩
    let m : Memory := { files := [(⟨true, ["d", "v.tmp"]⟩, [9, 9])], armed := [.write], namespaceId := "0" }
    s.scratch.place ≠ s.path.place ∧ (s.write [5, 6] m).1.isOk = false ∧
      (s.write [5, 6] m).2.get? s.scratch.place = none := by
  intro s m
  have apart : s.scratch.place ≠ s.path.place := by decide +kernel
  have fails : (s.write [5, 6] m).1.isOk = false := by decide +kernel
  exact ⟨apart, fails, (only_a_refused_directory_leaves_the_scratch_file s [5, 6] m apart).1 rfl⟩

/-- The write fails before the rename, and the scratch file of an earlier crash is still there. -/
theorem a_scratch_file_outlives_a_refused_directory :
    let s : Atomic := ⟨⟨"/d/v"⟩, ⟨"/d/v.tmp"⟩, true⟩
    let m : Memory := { files := [(⟨true, ["d", "v.tmp"]⟩, [9, 9])], dirs := [⟨true, ["d"]⟩], armed := [.createDir],
                        namespaceId := "0" }
    s.scratch.place ≠ s.path.place ∧ (s.write [5] m).1.isOk = false ∧
      (s.write [5] m).2.get? s.scratch.place = some [9, 9] := by
  decide +kernel

end Atomic

end DurableValue.Store
