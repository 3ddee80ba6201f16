/-
  DurableValue.Proofs.Store.Moves — the moves of a store on a file system in memory.

  A history is the sequence of the primitives that two sides have carried out on one disk. The moves of a store are
  the primitives that its reading and replacing are made of.

  Proved:
  - `spares_iff`, `hasDir_move`: the moves touch the two files of the store and make the directories above the real
    one, and nothing else.
  - `Driven.kept_read`, `Driven.kept_write`: on a file system that is driven by primitives, what every move keeps is
    kept by reading and by a whole write.
-/
import DurableValue.Proofs.Disk.Memory
import DurableValue.Proofs.Store.Keeper

namespace DurableValue

namespace Disk

inductive Primitive where
  | read (p : Path)
  | look (p : Path)
  | create (p : Path)
  | write (h : Place) (bs : Bytes)
  | sync (h : Place)
  | createDirAll (p : Path)
  | rename (source target : Path)
  | removeFile (p : Path)
  | syncDir (p : Path)
  deriving DecidableEq, Repr

def Primitive.run : Primitive → Memory → Memory
  | read p, m => (m.read p).2
  | look _, m => m
  | create p, m => (m.create p).2
  | write h bs, m => (m.write h bs).2
  | sync h, m => (m.sync h).2
  | createDirAll p, m => (m.createDirAll p).2
  | rename p q, m => (m.rename p q).2
  | removeFile p, m => (m.removeFile p).2
  | syncDir p, m => (m.syncDir p).2

inductive Side where
  | left
  | right
  deriving DecidableEq, Repr

abbrev History := List (Side × Primitive)

def replay (m : Memory) (h : History) : Memory := h.foldl (fun m e => e.2.run m) m

@[simp] theorem replay_append (m : Memory) (h h' : History) : replay m (h ++ h') = replay (replay m h) h' :=
  List.foldl_append

theorem replay_concat (m : Memory) (h : History) (e : Side × Primitive) : replay m (h ++ [e]) = e.2.run (replay m h) :=
  List.foldl_append

/-- No operation arms a fault. -/
theorem armed_run {m : Memory} (h : m.armed = []) (p : Primitive) : (p.run m).armed = [] := by
  cases p with
  | read p =>
    have counted : ({ m with reads := m.reads + 1 } : Memory).armed = [] := h
    simp only [Primitive.run, Memory.read, Memory.guarded_unarmed _ counted]
    split <;> exact h
  | look p => exact h
  | create p =>
    simp only [Primitive.run, Memory.create]
    split <;> exact h
  | write p bs =>
    have disarmed : (m.disarm .write).armed = [] := by rw [Memory.disarm, h]; rfl
    simp only [Primitive.run, Memory.write]
    split
    · exact disarmed
    · split <;> exact disarmed
  | sync p =>
    simp only [Primitive.run, Memory.sync, m.guarded_unarmed h]
    exact h
  | createDirAll p =>
    simp only [Primitive.run, Memory.createDirAll, m.guarded_unarmed h]
    exact h
  | rename p q =>
    simp only [Primitive.run, Memory.rename, m.guarded_unarmed h]
    split
    · exact h
    · split <;> exact h
  | removeFile p =>
    simp only [Primitive.run, Memory.removeFile]
    split <;> exact h
  | syncDir p =>
    simp only [Primitive.run, Memory.syncDir, m.guarded_unarmed h]
    exact h

/-- No operation takes a directory away. -/
theorem hasDir_run {m : Memory} {q : Place} (h : m.hasDir q = true) (p : Primitive) : (p.run m).hasDir q = true := by
  cases p with
  | read p => exact (Memory.hasDir_of_dirs (m.read_dirs p) q).trans h
  | look p => exact h
  | create p => exact (Memory.hasDir_of_dirs (m.create_dirs p) q).trans h
  | write p bs => exact (Memory.hasDir_of_dirs (m.write_dirs p bs) q).trans h
  | sync p => exact (Memory.hasDir_of_dirs (m.sync_dirs p) q).trans h
  | createDirAll p =>
    simp only [Primitive.run, Memory.createDirAll]
    rcases m.guarded_cases .createDir fun m => (.ok (), m.addDirs p.place) with ⟨-, e⟩ | ⟨-, e⟩ <;> rw [e]
    · exact h
    · exact (m.hasDir_addDirs _ _).mpr (Or.inl h)
  | rename p p' => exact (Memory.hasDir_of_dirs (m.rename_dirs p p') q).trans h
  | removeFile p => exact (Memory.hasDir_of_dirs (m.removeFile_dirs p) q).trans h
  | syncDir p => exact (Memory.hasDir_of_dirs (m.syncDir_dirs p) q).trans h

/-- No operation moves a disk to another namespace. -/
theorem namespaceId_run (p : Primitive) (m : Memory) : (p.run m).namespaceId = m.namespaceId := by
  cases p with
  | read p =>
    refine Memory.guarded_namespaceId { m with reads := m.reads + 1 } ?_
    split <;> rfl
  | look p => rfl
  | create p =>
    simp only [Primitive.run, Memory.create]
    split <;> rfl
  | write h bs =>
    simp only [Primitive.run, Memory.write]
    split
    · rfl
    · split <;> rfl
  | sync h => exact m.guarded_namespaceId rfl
  | createDirAll p => exact m.guarded_namespaceId rfl
  | rename p q =>
    refine m.guarded_namespaceId ?_
    simp only []
    split
    · rfl
    · split <;> rfl
  | removeFile p =>
    simp only [Primitive.run, Memory.removeFile]
    split <;> rfl
  | syncDir p => exact m.guarded_namespaceId rfl

end Disk

namespace Store

open Disk (FileSystem Memory Primitive History)

inductive Atomic.Move (s : Atomic) : Primitive → Prop where
  | read : s.Move (.read s.path)
  | lookReal : s.Move (.look s.path)
  | lookScratch : s.Move (.look s.scratch)
  | makeParent : s.Move (.createDirAll s.parent)
  | openScratch : s.Move (.create s.scratch)
  | fillScratch (bs : Bytes) : s.Move (.write s.scratch.place bs)
  | syncScratch : s.Move (.sync s.scratch.place)
  | publish : s.Move (.rename s.scratch s.path)
  | removeScratch : s.Move (.removeFile s.scratch)
  | syncParent : s.Move (.syncDir s.parent)

namespace Atomic

variable {s : Atomic} {p : Primitive}

/-- A move leaves every third file alone. -/
theorem get?_move (h : s.Move p) (m : Memory) {q : Place} (real : q ≠ s.path.place) (scratch : q ≠ s.scratch.place) :
    (p.run m).get? q = m.get? q := by
  cases h with
  | read => exact m.read_get? _ q
  | lookReal => rfl
  | lookScratch => rfl
  | makeParent => exact m.createDirAll_get? _ q
  | openScratch => exact m.create_get? scratch
  | fillScratch bs => exact m.write_get? bs scratch
  | syncScratch => exact m.sync_get? _ q
  | publish =>
    rcases m.rename_cases s.scratch s.path with ⟨-, same⟩ | ⟨-, bs, -, moved⟩
    · exact same q
    · exact (moved q).trans (by rw [if_neg real, if_neg scratch])
  | removeScratch => exact m.removeFile_get? scratch
  | syncParent => exact m.syncDir_get? _ q

def bareDisk (files : List (Place × Bytes)) (q : Place) : Memory :=
  { files := files, dirs := q.parent?.toList, namespaceId := "" }

theorem parentExists_bareDisk (files : List (Place × Bytes)) (q : Place) :
    (bareDisk files q).parentExists q = true := by
  unfold Memory.parentExists
  cases up : q.parent? with
  | none => rfl
  | some d => simp [Memory.hasDir, bareDisk, up]

/-- A store's moves leave a file alone if and only if it is neither of the store's two: the scratch file is emptied when
it is opened, and the real file is replaced by the rename. -/
theorem spares_iff {q : Place} :
    (∀ p, s.Move p → ∀ m, (p.run m).get? q = m.get? q) ↔ q ≠ s.path.place ∧ q ≠ s.scratch.place := by
  constructor
  case mpr =>
    intro others p move m
    exact get?_move move m others.1 others.2
  intro spares
  have scratch : q ≠ s.scratch.place := by
    rintro rfl
    have emptied := spares _ .openScratch (bareDisk [] s.scratch.place)
    simp only [Primitive.run, Memory.create, parentExists_bareDisk, if_true, Memory.get?_set] at emptied
    cases emptied
  refine ⟨?_, scratch⟩
  rintro rfl
  have same := spares _ .publish (bareDisk [(s.scratch.place, [])] s.path.place)
  have source : (bareDisk [(s.scratch.place, [])] s.path.place).get? s.scratch.place = some [] := by
    simp [Memory.get?, bareDisk]
  have target : (bareDisk [(s.scratch.place, [])] s.path.place).get? s.path.place = none := by
    have other : (s.path.place == s.scratch.place) = false := beq_eq_false_iff_ne.mpr scratch
    simp [Memory.get?, bareDisk, List.lookup_cons, other]
  rcases Memory.rename_cases (bareDisk [(s.scratch.place, [])] s.path.place) s.scratch s.path with
    ⟨⟨e, failed⟩, -⟩ | ⟨-, bs, -, moved⟩
  · have unarmed : (bareDisk [(s.scratch.place, [])] s.path.place).armed = [] := rfl
    simp only [Memory.rename, Memory.guarded_unarmed _ unarmed, parentExists_bareDisk, source] at failed
    cases failed
  · have replaced := (moved s.path.place).trans (if_pos rfl)
    cases replaced.symm.trans (same.trans target)

/-- A move makes no directory but those above the real file. -/
theorem hasDir_move (h : s.Move p) (m : Memory) {q : Place} (above : q ∉ s.parent.place.ancestors) :
    (p.run m).hasDir q = m.hasDir q := by
  cases h with
  | read => exact Memory.hasDir_of_dirs (m.read_dirs _) q
  | lookReal => rfl
  | lookScratch => rfl
  | makeParent => exact m.createDirAll_dirs above
  | openScratch => exact Memory.hasDir_of_dirs (m.create_dirs _) q
  | fillScratch bs => exact Memory.hasDir_of_dirs (m.write_dirs _ _) q
  | syncScratch => exact Memory.hasDir_of_dirs (m.sync_dirs _) q
  | publish => exact Memory.hasDir_of_dirs (m.rename_dirs _ _) q
  | removeScratch => exact Memory.hasDir_of_dirs (m.removeFile_dirs _) q
  | syncParent => exact Memory.hasDir_of_dirs (m.syncDir_dirs _) q

end Atomic

/-! ## A store does its own moves -/

/-- A file system whose operations leave behind what their primitives do to it. -/
structure Driven (F : Type) [FileSystem F Place] where
  after : Primitive → F → F
  read : ∀ (d : F) p, (FileSystem.read d p).2 = after (.read p) d
  entryExists : ∀ (d : F) p, (FileSystem.entryExists d p).2 = after (.look p) d
  create : ∀ (d : F) p, (FileSystem.create d p).2 = after (.create p) d
  create_ok : ∀ (d : F) p h, (FileSystem.create d p).1 = .ok h → h = p.place
  append : ∀ (d : F) h bs, (FileSystem.append d h bs).2 = after (.write h bs) d
  sync : ∀ (d : F) h, (FileSystem.sync d h).2 = after (.sync h) d
  close : ∀ (d : F) h, FileSystem.close d h = d
  createDirAll : ∀ (d : F) p, (FileSystem.createDirAll d p).2 = after (.createDirAll p) d
  rename : ∀ (d : F) p q, (FileSystem.rename d p q).2 = after (.rename p q) d
  removeFile : ∀ (d : F) p, (FileSystem.removeFile d p).2 = after (.removeFile p) d
  syncDir : ∀ (d : F) p, (FileSystem.syncDir d p).2 = after (.syncDir p) d

def Phase.OnScratch (s : Atomic) : Phase Place → Prop
  | .fillScratch h | .syncScratch h | .discard (some h) _ => h = s.scratch.place
  | _ => True

namespace Driven

def memory : Driven Memory where
  after := Primitive.run
  read _ _ := rfl
  entryExists _ _ := rfl
  create _ _ := rfl
  create_ok m _ _ ok := (m.create_ok ok).1
  append _ _ _ := rfl
  sync _ _ := rfl
  close _ _ := rfl
  createDirAll _ _ := rfl
  rename _ _ _ := rfl
  removeFile _ _ := rfl
  syncDir _ _ := rfl

variable {F : Type} [FileSystem F Place] (drive : Driven F) {s : Atomic} {P : F → Prop} {d : F}

section

variable (kept : ∀ p d, s.Move p → P d → P (drive.after p d))

include kept in
theorem kept_read (h : P d) : P (s.read d).2 := by
  have own := kept _ _ .read h
  rw [← drive.read] at own
  unfold Atomic.read
  rcases e : FileSystem.read d s.path with ⟨err | bs, d'⟩ <;> rw [e] at own
  · simp only []
    split
    · have look := kept _ _ .lookReal own
      rw [← drive.entryExists] at look
      unfold Atomic.fileExists
      rcases e' : FileSystem.entryExists d' s.path with ⟨_ | _, d''⟩ <;> rw [e'] at look <;> exact look
    · exact own
  · exact own

include kept in
theorem kept_writeAll (bs : Bytes) (h : P d) : P (FileSystem.writeAll d s.scratch.place bs).2 := by
  have own := kept _ _ (.fillScratch bs) h
  rw [← drive.append] at own
  unfold FileSystem.writeAll
  split
  · exact h
  · exact own

include kept in
theorem kept_advance (bs : Bytes) {phase : Phase Place} (h : P d) (onScratch : phase.OnScratch s) :
    P (s.advance bs phase d).2 ∧ ∀ next, (s.advance bs phase d).1 = .next next → next.OnScratch s := by
  cases phase with
  | makeParent =>
    have own := kept _ _ .makeParent h
    rw [← drive.createDirAll] at own
    simp only [Atomic.advance]
    rcases e : FileSystem.createDirAll d s.parent with ⟨_ | _, d'⟩ <;> rw [e] at own <;>
      exact ⟨own, by intro _ h; cases h <;> trivial⟩
  | openScratch =>
    have own := kept _ _ .openScratch h
    rw [← drive.create] at own
    simp only [Atomic.advance]
    rcases e : FileSystem.create d s.scratch with ⟨_ | hd, d'⟩ <;> rw [e] at own
    · exact ⟨own, by intro _ h; cases h; trivial⟩
    · refine ⟨own, ?_⟩
      intro next h
      cases h
      exact drive.create_ok _ _ _ (congrArg Prod.fst e)
  | fillScratch hd =>
    -- In memory a handle is the place of its file, so this is a move of the store.
    obtain rfl : hd = s.scratch.place := onScratch
    have own := drive.kept_writeAll kept bs h
    simp only [Atomic.advance]
    rcases e : FileSystem.writeAll d s.scratch.place bs with ⟨_ | _, d'⟩ <;> rw [e] at own <;>
      exact ⟨own, by intro _ h; cases h; rfl⟩
  | syncScratch hd =>
    obtain rfl : hd = s.scratch.place := onScratch
    have own := kept _ _ .syncScratch h
    rw [← drive.sync] at own
    simp only [Atomic.advance]
    rcases e : FileSystem.sync d s.scratch.place with ⟨_ | _, d'⟩ <;> rw [e] at own
    · exact ⟨own, by intro _ h; cases h; rfl⟩
    · simp only [drive.close]
      exact ⟨own, by intro _ h; cases h; trivial⟩
  | publish =>
    have own := kept _ _ .publish h
    rw [← drive.rename] at own
    simp only [Atomic.advance]
    rcases e : FileSystem.rename d s.scratch s.path with ⟨_ | _, d'⟩ <;> rw [e] at own <;>
      exact ⟨own, by intro _ h; cases h; trivial⟩
  | syncParent =>
    have own := kept _ _ .syncParent h
    rw [← drive.syncDir] at own
    simp only [Atomic.advance]
    split
    · rcases e : FileSystem.syncDir d s.parent with ⟨_ | _, d'⟩ <;> rw [e] at own <;> exact ⟨own, by intro _ h; cases h⟩
    · exact ⟨h, by intro _ h; cases h⟩
  | discard hd cause =>
    have own := kept _ _ .lookScratch h
    rw [← drive.entryExists] at own
    have step : s.advance bs (.discard hd cause) d = s.sweep cause d := by
      cases hd with
      | none => exact Atomic.advance_discard_none cause
      | some hd => rw [Atomic.advance_discard_some, drive.close]
    rw [step, Atomic.sweep]
    rcases e : FileSystem.entryExists d s.scratch with ⟨_ | _, d'⟩ <;> rw [e] at own <;>
      exact ⟨own, by intro _ h; cases h <;> trivial⟩
  | removeScratch cause =>
    have own := kept _ _ .removeScratch h
    rw [← drive.removeFile] at own
    exact ⟨own, by intro _ h; cases h⟩

include kept in
/-- A whole write is made of the store's moves. -/
theorem kept_settle {bs : Bytes} {phase : Phase Place} (h : P d) (onScratch : phase.OnScratch s) :
    P (s.settle bs phase d).2 := by
  induction phase, d using @Atomic.walk_induction F Place _ s bs with
  | h phase d ih =>
    obtain ⟨own, ready⟩ := drive.kept_advance kept bs h onScratch
    rcases step : s.advance bs phase d with ⟨next | outcome, d'⟩ <;> rw [step] at own ready
    · rw [Atomic.settle_next step]
      exact ih next d' step own (ready next rfl)
    · rw [Atomic.settle_done step]
      exact own

include kept in
theorem kept_write {bs : Bytes} (h : P d) : P (s.write bs d).2 := drive.kept_settle kept h trivial

end

end Driven

end Store

end DurableValue
