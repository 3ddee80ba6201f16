/-
  DurableValue.Proofs.Store.Doomed — the end of a process between two operations of the file system.

  A doomed disk carries out so many operations and then none: the one that the end cuts short does nothing, except
  that a write may leave some first bytes behind, and all later ones do nothing at all. What is on it at last is what
  is on a disk whose process ended there. On such a disk too only a rename changes the real file of a store
  (`Keeper.doomed`).
-/
import DurableValue.Proofs.Disk.Memory
import DurableValue.Proofs.Path
import DurableValue.Proofs.Store.Keeper

namespace DurableValue

namespace Disk

/-- A file system in memory under a process that comes to an end. -/
structure Doomed where
  disk : Memory
  /-- The operations that are still carried out. -/
  left : Nat
  /-- How many bytes arrive of a write that the end cuts short. -/
  torn : Nat
  isOver : Bool := false

namespace Doomed

variable {α : Type} (d : Doomed)

def gone : IoError := .other "the process has ended"

def attempt (run : Memory → α × Memory) (failure : α) (cut : Memory → Memory) : α × Doomed :=
  if d.isOver then (failure, d)
  else match d.left with
    | 0 => (failure, { d with disk := cut d.disk, isOver := true })
    | n + 1 => ((run d.disk).1, { d with disk := (run d.disk).2, left := n })

def tear (h : Place) (bs : Bytes) (m : Memory) : Memory :=
  match m.get? h with
  | none => m
  | some old => m.set h (old ++ bs)

instance : FileSystem Doomed Place where
  read d p := d.attempt (·.read p) (.error gone) id
  create d p := d.attempt (·.create p) (.error gone) id
  append d h bs := d.attempt (·.append h bs) (.error gone) (tear h (bs.take d.torn))
  flush d _ := d.attempt (fun m => (.ok (), m)) (.error gone) id
  sync d h := d.attempt (·.sync h) (.error gone) id
  close d _ := d
  createDirAll d p := d.attempt (·.createDirAll p) (.error gone) id
  rename d p q := d.attempt (·.rename p q) (.error gone) id
  removeFile d p := d.attempt (·.removeFile p) (.error gone) id
  entryExists d p := d.attempt (fun m => (m.entryExists p, m)) false id
  syncDir d p := d.attempt (·.syncDir p) (.error gone) id
  canonicalKey d p := d.disk.canonicalKey p

/-- An operation that is attempted runs, or fails with its disk as it was or as the end left it. -/
theorem attempt_cases (run : Memory → α × Memory) (failure : α) (cut : Memory → Memory) :
    ((d.attempt run failure cut).1 = (run d.disk).1 ∧ (d.attempt run failure cut).2.disk = (run d.disk).2) ∨
      ((d.attempt run failure cut).1 = failure ∧
        ((d.attempt run failure cut).2.disk = d.disk ∨ (d.attempt run failure cut).2.disk = cut d.disk)) := by
  unfold attempt
  split
  · exact Or.inr ⟨rfl, Or.inl rfl⟩
  · split
    · exact Or.inr ⟨rfl, Or.inr rfl⟩
    · exact Or.inl ⟨rfl, rfl⟩

/-- What neither an operation nor its cut changes, no attempt at it changes. -/
theorem attempt_same {β : Type} {f : Memory → β} {run : Memory → α × Memory} {failure : α} {cut : Memory → Memory}
    (whole : f (run d.disk).2 = f d.disk) (part : f (cut d.disk) = f d.disk) :
    f (d.attempt run failure cut).2.disk = f d.disk := by
  rcases d.attempt_cases run failure cut with ⟨-, e⟩ | ⟨-, e | e⟩ <;> rw [e]
  · exact whole
  · exact part

theorem tear_get? {h q : Place} (bs : Bytes) (m : Memory) (hq : q ≠ h) : (tear h bs m).get? q = m.get? q := by
  unfold tear
  split
  · rfl
  · simp [hq]

theorem tear_dirs (h : Place) (bs : Bytes) (m : Memory) : (tear h bs m).dirs = m.dirs := by
  unfold tear
  split <;> rfl

end Doomed

end Disk

namespace Store

open Disk (FileSystem IoError Memory Doomed)

def Sight.doomed (s : Atomic) (isDir : Bool) : Sight Doomed Place where
  real d := d.disk.get? s.path.place
  scratch d := d.disk.get? s.scratch.place
  fine d := d.disk.hasDir s.path.place = isDir
  seen _ _ := False
  mine h := h = s.scratch.place

section

variable {α : Type} {s : Atomic} {isDir : Bool} {d : Doomed} {run : Memory → α × Memory} {failure : α}
  {cut : Memory → Memory}

/-- An attempt is calm when neither the operation nor its cut does anything at the real path. -/
theorem Sight.calm_attempt (fine : (Sight.doomed s isDir).fine d)
    (whole : (run d.disk).2.get? s.path.place = d.disk.get? s.path.place)
    (wholeDir : (run d.disk).2.hasDir s.path.place = d.disk.hasDir s.path.place)
    (part : (cut d.disk).get? s.path.place = d.disk.get? s.path.place) (partDirs : (cut d.disk).dirs = d.disk.dirs) :
    (Sight.doomed s isDir).Calm d (d.attempt run failure cut).2 := by
  refine ⟨?_, d.attempt_same (f := fun m => m.get? s.path.place) whole part, fun _ h => h.elim⟩
  exact (d.attempt_same (f := fun m => m.hasDir s.path.place) wholeDir (Memory.hasDir_of_dirs partDirs _)).trans fine

/-- The same of an operation that the end does not cut in two. -/
theorem Sight.calm_whole (fine : (Sight.doomed s isDir).fine d)
    (whole : (run d.disk).2.get? s.path.place = d.disk.get? s.path.place) (dirs : (run d.disk).2.dirs = d.disk.dirs) :
    (Sight.doomed s isDir).Calm d (d.attempt run failure id).2 :=
  Sight.calm_attempt fine whole (Memory.hasDir_of_dirs dirs _) rfl rfl

end

def Keeper.doomed (s : Atomic) (accepted : checkPath s.path = .ok ()) (apart : s.scratch.place ≠ s.path.place)
    (isDir : Bool) : Keeper Doomed s where
  toSight := Sight.doomed s isDir
  createDirAll hf :=
    Sight.calm_attempt hf (Memory.createDirAll_get? _ _ _)
      (Memory.createDirAll_dirs _ (Path.place_not_mem_ancestors accepted)) rfl rfl
  read hf := Sight.calm_whole hf (Memory.read_get? _ _ _) (Memory.read_dirs _ _)
  realExists hf := Sight.calm_whole hf rfl rfl
  scratchExists hf := Sight.calm_whole hf rfl rfl
  create hf := Sight.calm_whole hf (Memory.create_get? _ apart.symm) (Memory.create_dirs _ _)
  create_ok {d h} hf ok := by
    rcases d.attempt_cases (·.create s.scratch) (.error Doomed.gone) id with ⟨result, after⟩ | ⟨failed, -⟩
    · obtain ⟨rfl, fresh⟩ := d.disk.create_ok (result.symm.trans ok)
      exact ⟨rfl, (congrArg (Memory.get? · s.scratch.place) after).trans fresh⟩
    · cases failed.symm.trans ok
  append {d h} bs hf hm := by
    subst hm
    exact Sight.calm_attempt hf (Memory.write_get? _ _ apart.symm) (Memory.hasDir_of_dirs (Memory.write_dirs _ _ _) _)
      (Doomed.tear_get? _ _ apart.symm) (Doomed.tear_dirs _ _ _)
  append_ok {d h bs old} hf hm ho ok := by
    subst hm
    rcases d.attempt_cases (·.append s.scratch.place bs) (.error Doomed.gone)
      (Doomed.tear s.scratch.place (bs.take d.torn)) with ⟨result, after⟩ | ⟨failed, -⟩
    · obtain ⟨old', ho', written⟩ := d.disk.append_ok (result.symm.trans ok)
      cases ho.symm.trans ho'
      exact (congrArg (Memory.get? · s.scratch.place) after).trans written
    · cases failed.symm.trans ok
  sync hf _ := Sight.calm_whole hf (Memory.sync_get? _ _ _) (Memory.sync_dirs _ _)
  sync_scratch {d h} _ _ := d.attempt_same (f := fun m => m.get? s.scratch.place) (Memory.sync_get? _ _ _) rfl
  close hf _ := ⟨hf, rfl, fun _ h => h.elim⟩
  close_scratch _ _ := rfl
  rename_error {d e} hf failed := by
    rcases d.attempt_cases (·.rename s.scratch s.path) (.error Doomed.gone) id with ⟨result, after⟩ | ⟨-, after⟩
    · rcases d.disk.rename_cases s.scratch s.path with ⟨-, same⟩ | ⟨ok, -⟩
      · exact Sight.calm_whole hf (same _) (Memory.rename_dirs _ _ _)
      · cases (result.trans ok).symm.trans failed
    · have same : (FileSystem.rename d s.scratch s.path).2.disk = d.disk := after.elim id id
      exact ⟨(congrArg (Memory.hasDir · s.path.place) same).trans hf, congrArg (Memory.get? · s.path.place) same,
        fun _ h => h.elim⟩
  rename_ok {d} hf ok := by
    rcases d.attempt_cases (·.rename s.scratch s.path) (.error Doomed.gone) id with ⟨result, after⟩ | ⟨failed, -⟩
    · rcases d.disk.rename_cases s.scratch s.path with ⟨⟨e, failed⟩, -⟩ | ⟨-, bs, hb, moved⟩
      · cases (result.trans failed).symm.trans ok
      · have dirs := Memory.hasDir_of_dirs (d.disk.rename_dirs s.scratch s.path) s.path.place
        refine ⟨?_, ?_, fun _ h => h.elim⟩
        · exact ((congrArg (Memory.hasDir · s.path.place) after).trans dirs).trans hf
        · exact ((congrArg (Memory.get? · s.path.place) after).trans ((moved _).trans (if_pos rfl))).trans hb.symm
    · cases failed.symm.trans ok
  removeScratch hf := Sight.calm_whole hf (Memory.removeFile_get? _ apart.symm) (Memory.removeFile_dirs _ _)
  syncDir hf := Sight.calm_whole hf (Memory.syncDir_get? _ _ _) (Memory.syncDir_dirs _ _)

end Store

end DurableValue
