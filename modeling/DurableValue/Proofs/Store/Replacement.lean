/-
  DurableValue.Proofs.Store.Replacement — writes of a store in memory: the file is replaced as a whole or not at all.

  Two things are said of a write on any file system in memory, whatever files, directories, faults and leftovers it
  holds.

  Proved:
  - `ending_makeParent`: whether the bytes are published and how the write ends is told from the armed faults and the
    directories alone (`verdict`), so no file has a say in it.
  - `course_contents`, `write_contents`: with a scratch file of its own the store changes the real file by the rename
    only.
  - `write_replaces_as_a_whole`: from the old contents to the new bytes, and no third file at all.
-/
import DurableValue.Proofs.Disk.Memory
import DurableValue.Proofs.Store.Keeper

namespace DurableValue.Store

open Disk (FileSystem IoError Memory Fault)

namespace Atomic

/-! ## How a write ends -/

def closing (s : Atomic) (m : Memory) : Bool × Except Error Unit :=
  if m.isArmed .sync then (false, .error (s.scratchNotSynced Fault.sync.error))
  else if m.isArmed .rename then (false, .error (.renameFailed s.scratch s.path Fault.rename.error))
  else if !m.parentExists s.path.place then
    (false, .error (.renameFailed s.scratch s.path (Memory.noParent s.path.place)))
  else if s.syncDirectory && m.isArmed .syncDir then (true, .error (s.parentNotSynced Fault.syncDir.error))
  else (true, .ok ())

def verdict (s : Atomic) (bs : Bytes) (m : Memory) : Bool × Except Error Unit :=
  let made := m.addDirs s.parent.place
  if m.isArmed .createDir then (false, .error (s.parentMissing Fault.createDir.error))
  else if !made.parentExists s.scratch.place then
    (false, .error (s.scratchNotCreated (Memory.noParent s.scratch.place)))
  else if !bs.isEmpty && m.isArmed .write then (false, .error (s.scratchNotWritten Fault.write.error))
  else s.closing made

def ending {F H : Type} [FileSystem F H] (s : Atomic) (bs : Bytes) (phase : Phase H) (disk : F) :
    Bool × Except Error Unit :=
  (s.publishes bs phase disk, (s.settle bs phase disk).1)

section

variable {F H : Type} [FileSystem F H] {s : Atomic} {bs : Bytes} {phase next : Phase H} {disk disk' : F}

theorem ending_next (step : s.advance bs phase disk = (.next next, disk')) :
    s.ending bs phase disk = s.ending bs next disk' := by
  simp [ending, settle_next step, Keeper.publishes_next step, Keeper.advance_published step]

theorem ending_done {outcome : Except Error Unit} (step : s.advance bs phase disk = (.done outcome, disk')) :
    s.ending bs phase disk = (phase.isPublished, outcome) := by
  simp [ending, settle_done step, Keeper.publishes_done step]

/-- Once the scratch file has to go, the cause is reported, whatever becomes of the file. -/
theorem ending_discard (h : Option H) (cause : Error) (disk : F) :
    s.ending bs (.discard h cause) disk = (false, .error cause) := by
  rcases step : s.advance bs (.discard h cause) disk with ⟨next | outcome, disk'⟩
  · rw [ending_next step]
    simp only [advance] at step
    split at step <;> cases step
    exact ending_done rfl
  · rw [ending_done step]
    simp only [advance] at step
    split at step <;> cases step
    rfl

end

section

variable (s : Atomic) (bs : Bytes) (m : Memory)

theorem ending_syncParent : s.ending bs .syncParent m = (true,
    if s.syncDirectory && m.isArmed .syncDir then .error (s.parentNotSynced Fault.syncDir.error) else .ok ()) := by
  rcases Memory.guarded_cases m .syncDir fun m => (.ok (), m) with ⟨ha, e⟩ | ⟨ha, e⟩
  all_goals
    have sync : FileSystem.syncDir m s.parent = _ := e
    cases hs : s.syncDirectory
  all_goals
    rw [ending_done (by simp only [advance, hs, sync]; rfl)]
    simp [ha, Phase.isPublished]

theorem ending_publish {b : Bytes} (he : m.get? s.scratch.place = some b) : s.ending bs .publish m =
    if m.isArmed .rename then (false, .error (.renameFailed s.scratch s.path Fault.rename.error))
    else if !m.parentExists s.path.place then
      (false, .error (.renameFailed s.scratch s.path (Memory.noParent s.path.place)))
    else s.ending bs .syncParent m := by
  have moved : FileSystem.rename m s.scratch s.path = m.rename s.scratch s.path := rfl
  have failed {e : IoError} {m' : Memory} (h : m.rename s.scratch s.path = (.error e, m')) :
      s.ending bs .publish m = (false, .error (.renameFailed s.scratch s.path e)) := by
    rw [ending_next (by simp only [advance, moved, h]; rfl), ending_discard]
  cases ha : m.isArmed .rename
  · cases hp : m.parentExists s.path.place
    · simpa using failed (by simp [Memory.rename, Memory.guarded, ha, hp]; rfl)
    · rw [ending_next (by simp only [advance, moved, Memory.rename, Memory.guarded, ha, hp, he]; rfl),
        ending_syncParent, ending_syncParent]
      rfl
  · simpa using failed (by simp [Memory.rename, Memory.guarded, ha]; rfl)

theorem ending_syncScratch {b : Bytes} (h : Place) (he : m.get? s.scratch.place = some b) :
    s.ending bs (.syncScratch h) m = s.closing m := by
  have synced : FileSystem.sync m h = m.sync h := rfl
  cases ha : m.isArmed .sync
  · rw [ending_next (by simp only [advance, synced, Memory.sync, Memory.guarded, ha]; rfl)]
    have closed : FileSystem.close m h = m := rfl
    rw [closed, ending_publish s bs m he, ending_syncParent, closing, ha]
    split
    · rfl
    · split
      · rfl
      · cases s.syncDirectory && m.isArmed .syncDir <;> rfl
  · rw [ending_next (by simp only [advance, synced, Memory.sync, Memory.guarded, ha]; rfl), ending_discard, closing,
      if_pos ha]

/-- What has become of an armed write is no matter once the scratch file is complete. -/
theorem closing_written (b : Bytes) (p : Place) : s.closing ((m.disarm .write).set p b) = s.closing m := by
  have armed (f : Fault) (hf : f ≠ .write) : ((m.disarm .write).set p b).isArmed f = m.isArmed f :=
    (Memory.isArmed_disarm m .write f).trans (by simp [hf])
  simp only [closing, armed .sync (by decide), armed .rename (by decide), armed .syncDir (by decide)]
  rfl

theorem ending_fillScratch (he : m.get? s.scratch.place = some []) : s.ending bs (.fillScratch s.scratch.place) m =
    if !bs.isEmpty && m.isArmed .write then (false, .error (s.scratchNotWritten Fault.write.error))
    else s.closing m := by
  cases hb : bs.isEmpty
  · cases ha : m.isArmed .write
    · have written : FileSystem.append m s.scratch.place bs = _ := m.append_unarmed he ha
      rw [ending_next (by simp only [advance, FileSystem.writeAll, written, hb]; rfl),
        @ending_syncScratch s bs _ bs _ (by simp), closing_written]
      rfl
    · have cut : FileSystem.append m s.scratch.place bs = _ := m.append_armed he ha
      rw [ending_next (by simp only [advance, FileSystem.writeAll, cut, hb]; rfl), ending_discard]
      rfl
  · rw [ending_next (by simp only [advance, FileSystem.writeAll, hb]; rfl), ending_syncScratch _ _ _ _ he]
    rfl

theorem ending_openScratch : s.ending bs .openScratch m =
    if !m.parentExists s.scratch.place then (false, .error (s.scratchNotCreated (Memory.noParent s.scratch.place)))
    else if !bs.isEmpty && m.isArmed .write then (false, .error (s.scratchNotWritten Fault.write.error))
    else s.closing m := by
  have created : FileSystem.create m s.scratch = m.create s.scratch := rfl
  cases hp : m.parentExists s.scratch.place
  · rw [ending_next (by simp only [advance, created, Memory.create, hp]; rfl), ending_discard]
    rfl
  · rw [ending_next (by simp only [advance, created, Memory.create, hp]; rfl), ending_fillScratch _ _ _ (by simp)]
    rfl

/-- The faults armed and the directories decide how a write ends; the files have no say in it. -/
theorem ending_makeParent : s.ending bs .makeParent m = s.verdict bs m := by
  have made : FileSystem.createDirAll m s.parent = m.createDirAll s.parent := rfl
  cases ha : m.isArmed .createDir
  · rw [ending_next (by simp only [advance, made, Memory.createDirAll, Memory.guarded, ha]; rfl), ending_openScratch,
      verdict, ha]
    rfl
  · rw [ending_done (by simp only [advance, made, Memory.createDirAll, Memory.guarded, ha]; rfl), verdict, if_pos ha]
    rfl

theorem verdict_congr {m' : Memory} (dirs : m'.dirs = m.dirs) (armed : m'.armed = m.armed) :
    s.verdict bs m' = s.verdict bs m := by
  obtain ⟨files, _, _, reads, renames, namespaceId⟩ := m
  obtain ⟨files', _, _, reads', renames', namespaceId'⟩ := m'
  cases dirs
  cases armed
  rfl

end

end Atomic

/-! ## A write that returns -/

namespace Atomic

/-- What a phase finds on a disk on the way to a write that returns. The scratch file may be the real one. -/
def OnTheWay (s : Atomic) (bs : Bytes) : Phase Place → Memory → Prop
  | .fillScratch h, m => h = s.scratch.place ∧ m.get? s.scratch.place = some []
  | .syncScratch _, m | .publish, m => m.get? s.scratch.place = some bs
  | .syncParent, m => m.get? s.path.place = some bs
  | _, _ => True

theorem writeAll_ok {m m' : Memory} {h : Place} {bs : Bytes} (he : m.get? h = some [])
    (ok : FileSystem.writeAll m h bs = (.ok (), m')) : m'.get? h = some bs := by
  unfold FileSystem.writeAll at ok
  by_cases hb : bs.isEmpty = true
  · rw [if_pos hb] at ok
    cases ok
    rw [he, List.isEmpty_iff.mp hb]
  · rw [if_neg hb] at ok
    obtain ⟨old, ho, grown⟩ := m.append_ok (congrArg Prod.fst ok)
    cases he.symm.trans ho
    exact (congrArg (fun r => r.2.get? h) ok).symm.trans grown

theorem advance_onTheWay {s : Atomic} {bs : Bytes} {phase next : Phase Place} {m m' : Memory}
    (h : s.OnTheWay bs phase m) (step : s.advance bs phase m = (.next next, m')) : s.OnTheWay bs next m' := by
  cases phase with
  | makeParent => simp only [advance] at step; split at step <;> cases step; trivial
  | openScratch =>
    simp only [advance] at step
    split at step <;> cases step
    · rename_i hc
      obtain ⟨rfl, fresh⟩ := m.create_ok (congrArg Prod.fst hc)
      exact ⟨rfl, (congrArg (fun r => r.2.get? s.scratch.place) hc).symm.trans fresh⟩
    · trivial
  | fillScratch h' =>
    obtain ⟨rfl, he⟩ := h
    simp only [advance] at step
    split at step <;> cases step
    · rename_i hw
      exact writeAll_ok he hw
    · trivial
  | syncScratch h' =>
    simp only [advance] at step
    split at step <;> cases step
    · rename_i disk hs
      have kept := m.sync_get? h' s.scratch.place
      rw [show m.sync h' = (.ok (), disk) from hs] at kept
      exact kept.trans h
    · trivial
  | publish =>
    simp only [advance] at step
    split at step <;> cases step
    · rename_i hr
      rcases m.rename_cases s.scratch s.path with ⟨⟨e, failed⟩, -⟩ | ⟨-, b, hb, moved⟩
      · cases failed.symm.trans (congrArg Prod.fst hr)
      · have held := (moved s.path.place).trans (if_pos rfl)
        rw [show m.rename s.scratch s.path = (.ok (), m') from hr] at held
        exact held.trans (hb.symm.trans h)
    · trivial
  | syncParent => cases Keeper.advance_published step
  | discard h' cause => simp only [advance] at step; split at step <;> cases step; trivial
  | removeScratch cause => cases step

/-- A write that returns has put its bytes in place, even onto its own scratch file. -/
theorem settle_ok_contents (s : Atomic) (bs : Bytes) (phase : Phase Place) (m : Memory) (h : s.OnTheWay bs phase m)
    (ok : (s.settle bs phase m).1 = .ok ()) : (s.settle bs phase m).2.get? s.path.place = some bs := by
  induction phase, m using @walk_induction Memory Place _ s bs with
  | h phase m ih =>
    rcases step : s.advance bs phase m with ⟨next | outcome, m'⟩
    · rw [settle_next step] at ok ⊢
      exact ih next m' step (advance_onTheWay h step) ok
    · have published := Keeper.settle_ok s bs phase m ok
      rw [Keeper.publishes_done step] at published
      rw [settle_done step]
      cases phase <;> cases published
      have kept := m.syncDir_get? s.parent s.path.place
      simp only [advance] at step
      split at step
      · split at step <;> cases step <;> rename_i disk hs <;>
          rw [show m.syncDir s.parent = (_, m') from hs] at kept <;> exact kept.trans h
      · cases step
        exact h

theorem write_ok_contents {s : Atomic} {bs : Bytes} {m : Memory} (ok : (s.write bs m).1 = .ok ()) :
    (s.write bs m).2.get? s.path.place = some bs := s.settle_ok_contents bs _ m trivial ok

end Atomic

/-! ## The two files in memory -/

def Keeper.memory (s : Atomic) (apart : s.scratch.place ≠ s.path.place) (start : Memory) : Keeper Memory s where
  real m := m.get? s.path.place
  scratch m := m.get? s.scratch.place
  fine m := ∀ q, q ≠ s.path.place → q ≠ s.scratch.place → m.get? q = start.get? q
  seen _ _ := False
  mine h := h = s.scratch.place
  createDirAll {m} hf :=
    ⟨fun q hr hs => (m.createDirAll_get? _ q).trans (hf q hr hs), m.createDirAll_get? _ _, fun _ h => h.elim⟩
  read {m} hf := ⟨fun q hr hs => (m.read_get? _ q).trans (hf q hr hs), m.read_get? _ _, fun _ h => h.elim⟩
  realExists hf := ⟨hf, rfl, fun _ h => h.elim⟩
  scratchExists hf := ⟨hf, rfl, fun _ h => h.elim⟩
  create {m} hf :=
    ⟨fun q hr hs => (m.create_get? hs).trans (hf q hr hs), m.create_get? apart.symm, fun _ h => h.elim⟩
  create_ok {m _} _ ok := m.create_ok ok
  append {m h} bs hf hm := by
    subst hm
    exact ⟨fun q hr hs => (m.write_get? bs hs).trans (hf q hr hs), m.write_get? bs apart.symm, fun _ h => h.elim⟩
  append_ok {m h bs old} _ hm ho ok := by
    subst hm
    obtain ⟨old', ho', written⟩ := m.append_ok ok
    cases ho.symm.trans ho'
    exact written
  sync {m h} hf _ := ⟨fun q hr hs => (m.sync_get? h q).trans (hf q hr hs), m.sync_get? h _, fun _ h => h.elim⟩
  sync_scratch {m h} _ _ := m.sync_get? h _
  close hf _ := ⟨hf, rfl, fun _ h => h.elim⟩
  close_scratch _ _ := rfl
  rename_error {m e} hf failed := by
    rcases m.rename_cases s.scratch s.path with ⟨-, same⟩ | ⟨ok, -⟩
    · exact ⟨fun q hr hs => (same q).trans (hf q hr hs), same _, fun _ h => h.elim⟩
    · cases ok.symm.trans failed
  rename_ok {m} hf ok := by
    rcases m.rename_cases s.scratch s.path with ⟨⟨e, failed⟩, -⟩ | ⟨-, bs, hb, moved⟩
    · cases failed.symm.trans ok
    · refine ⟨fun q hr hs => ?_, ?_, fun _ h => h.elim⟩
      · exact ((moved q).trans (by rw [if_neg hr, if_neg hs])).trans (hf q hr hs)
      · exact ((moved _).trans (if_pos rfl)).trans hb.symm
  removeScratch {m} hf :=
    ⟨fun q hr hs => (m.removeFile_get? hs).trans (hf q hr hs), m.removeFile_get? apart.symm, fun _ h => h.elim⟩
  syncDir {m} hf := ⟨fun q hr hs => (m.syncDir_get? _ q).trans (hf q hr hs), m.syncDir_get? _ _, fun _ h => h.elim⟩

namespace Atomic

section

variable {s : Atomic} {bs : Bytes} {m : Memory}

/-- After every phase of a write the real file holds the old contents or the new bytes, which the rename alone puts
there, and no third file has changed. -/
theorem course_contents (apart : s.scratch.place ≠ s.path.place) :
    ∀ k ∈ s.course bs .makeParent m,
      ((s.advance bs k.1 k.2).2.get? s.path.place = m.get? s.path.place ∨
        (s.advance bs k.1 k.2).2.get? s.path.place = some bs) ∧
      ((s.advance bs k.1 k.2).2.get? s.path.place ≠ k.2.get? s.path.place →
        k.1 = .publish ∧ (FileSystem.rename k.2 s.scratch s.path).1 = .ok ()) ∧
      ∀ q, q ≠ s.path.place → q ≠ s.scratch.place → (s.advance bs k.1 k.2).2.get? q = m.get? q := by
  intro k hk
  let keeper := Keeper.memory s apart m
  obtain ⟨fine, ready, real⟩ := keeper.course_real (fun _ _ _ => rfl) (keeper.ready_makeParent bs m) rfl k hk
  rcases (keeper.advance fine ready).2 with ⟨published, fine', real', -⟩ | ⟨-, fine', real', -⟩
  · exact ⟨Or.inr real', fun _ => Keeper.advance_renamed published, fine'⟩
  · refine ⟨?_, fun changed => absurd real' changed, fine'⟩
    have held := real'.trans real
    unfold Keeper.realAt at held
    split at held
    · exact Or.inr held
    · exact Or.inl held

/-- The real file and every third one after a write. -/
theorem write_contents (bs : Bytes) (m : Memory) (apart : s.scratch.place ≠ s.path.place) :
    (s.write bs m).2.get? s.path.place = (if (s.verdict bs m).1 then some bs else m.get? s.path.place) ∧
      ∀ q, q ≠ s.path.place → q ≠ s.scratch.place → (s.write bs m).2.get? q = m.get? q := by
  let keeper := Keeper.memory s apart m
  obtain ⟨fine, real, -⟩ := keeper.settle_real (fun _ _ _ => rfl) (keeper.ready_makeParent bs m) rfl
  have published : s.publishes bs .makeParent m = (s.verdict bs m).1 := congrArg Prod.fst (s.ending_makeParent bs m)
  rw [published] at real
  exact ⟨real, fine⟩

theorem write_outcome (s : Atomic) (bs : Bytes) (m : Memory) : (s.write bs m).1 = (s.verdict bs m).2 :=
  congrArg Prod.snd (s.ending_makeParent bs m)

/-- How a write fails: at the sync of the parent directory with the new bytes in place, or before with the old
contents. -/
theorem write_error {e : Error} (apart : s.scratch.place ≠ s.path.place) (failed : (s.write bs m).1 = .error e) :
    ((∃ d, (.syncParent, d) ∈ s.course bs .makeParent m ∧ (s.advance bs .syncParent d).1 = .done (.error e)) ∧
        (s.write bs m).2.get? s.path.place = some bs) ∨
      ((∀ d, (.syncParent, d) ∉ s.course bs .makeParent m) ∧
        (s.write bs m).2.get? s.path.place = m.get? s.path.place) := by
  let keeper := Keeper.memory s apart m
  obtain ⟨-, real, -⟩ := keeper.settle_real (fun _ _ _ => rfl) (keeper.ready_makeParent bs m) rfl
  cases published : s.publishes bs .makeParent m
  · rw [published] at real
    refine Or.inr ⟨fun d hd => ?_, real⟩
    have := List.any_eq_false.mp published _ hd
    exact this rfl
  · rw [published] at real
    refine Or.inl ⟨?_, real⟩
    obtain ⟨⟨phase, d⟩, hd, isPublished⟩ := List.any_eq_true.mp published
    cases phase <;> cases isPublished
    refine ⟨d, hd, ?_⟩
    have ends := s.settle_of_mem_course bs _ m _ hd
    rcases step : s.advance bs .syncParent d with ⟨next | outcome, d'⟩
    · cases Keeper.advance_published step
    · rw [settle_done step] at ends
      rw [← failed]
      exact congrArg (Step.done ∘ Prod.fst) ends

/-- The bytes a scratch file was left with do not matter. -/
theorem write_leftover (apart : s.scratch.place ≠ s.path.place) {m' : Memory}
    (same : ∀ q, q ≠ s.scratch.place → m'.get? q = m.get? q) (dirs : m'.dirs = m.dirs) (armed : m'.armed = m.armed) :
    (s.write bs m').1 = (s.write bs m).1 ∧
      ∀ q, q ≠ s.scratch.place → (s.write bs m').2.get? q = (s.write bs m).2.get? q := by
  have verdict := s.verdict_congr bs m dirs armed
  refine ⟨by rw [write_outcome, write_outcome, verdict], fun q hs => ?_⟩
  obtain ⟨real, others⟩ := write_contents bs m apart
  obtain ⟨real', others'⟩ := write_contents bs m' apart
  by_cases hr : q = s.path.place
  · subst hr
    rw [real, real', verdict, same _ apart.symm]
  · rw [others q hr hs, others' q hr hs, same q hs]

end

/-- **A write replaces the file as a whole.** After every phase the real file holds the old contents or exactly the new
bytes, and it changes at the rename only; no third file changes at all. A write that returns has the new bytes in place,
one that fails the old contents, except at the sync of the parent directory. What a scratch file was left with has no
say in any of it. -/
theorem write_replaces_as_a_whole (s : Atomic) (bs : Bytes) (m : Memory) (apart : s.scratch.place ≠ s.path.place) :
    (∀ k ∈ s.course bs .makeParent m,
      ((s.advance bs k.1 k.2).2.get? s.path.place = m.get? s.path.place ∨
        (s.advance bs k.1 k.2).2.get? s.path.place = some bs) ∧
      ((s.advance bs k.1 k.2).2.get? s.path.place ≠ k.2.get? s.path.place →
        k.1 = .publish ∧ (FileSystem.rename k.2 s.scratch s.path).1 = .ok ()) ∧
      ∀ q, q ≠ s.path.place → q ≠ s.scratch.place → (s.advance bs k.1 k.2).2.get? q = m.get? q) ∧
    ((s.write bs m).1 = .ok () → (s.write bs m).2.get? s.path.place = some bs) ∧
    (∀ e, (s.write bs m).1 = .error e →
      ((∃ d, (.syncParent, d) ∈ s.course bs .makeParent m ∧ (s.advance bs .syncParent d).1 = .done (.error e)) ∧
          (s.write bs m).2.get? s.path.place = some bs) ∨
        ((∀ d, (.syncParent, d) ∉ s.course bs .makeParent m) ∧
          (s.write bs m).2.get? s.path.place = m.get? s.path.place)) ∧
    ∀ m' : Memory, (∀ q, q ≠ s.scratch.place → m'.get? q = m.get? q) → m'.dirs = m.dirs → m'.armed = m.armed →
      (s.write bs m').1 = (s.write bs m).1 ∧
        ∀ q, q ≠ s.scratch.place → (s.write bs m').2.get? q = (s.write bs m).2.get? q := by
  exact ⟨course_contents apart, write_ok_contents, fun e failed => write_error apart failed,
    fun m' same dirs armed => write_leftover apart same dirs armed⟩

theorem a_torn_leftover_is_replaced :
    let s : Atomic := ⟨⟨"/d/v"⟩, ⟨"/d/v.tmp"⟩, true⟩
    let m : Memory := { files := [(⟨true, ["d", "v.tmp"]⟩, [9, 9]), (⟨true, ["d", "v"]⟩, [1])], namespaceId := "0" }
    s.scratch.place ≠ s.path.place ∧ (s.write [5] m).2.get? s.path.place = some [5] := by
  intro s m
  have apart : s.scratch.place ≠ s.path.place := by decide +kernel
  have returns : (s.write [5] m).1 = .ok () := by
    have isOk : (s.write [5] m).1.isOk = true := by decide +kernel
    rcases h : (s.write [5] m).1 with e | ⟨⟩
    · rw [h] at isOk; cases isOk
    · rfl
  exact ⟨apart, (write_replaces_as_a_whole s [5] m apart).2.1 returns⟩

end Atomic

end DurableValue.Store
