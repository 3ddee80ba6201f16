/-
  DurableValue.Proofs.Store.Synced — which new entries of the directories a write makes durable.

  A write that returns has asked its disk for the operations of one plan, in their order, and for nothing else: the
  rename is followed by a sync of the file's own directory, and no other directory is ever synced. The directories
  that were missing above the value file are entries too, made by the first operation, each in the directory above it.

  Proved:
  - `asked_write`: what a write asks for.
  - `file_synced`: the entry of the value file is durable.
  - `new_entries_are_synced_unless_a_directory_was_missing`: every new entry is durable exactly when no directory was
    missing, as none of those that were is synced afterwards.
-/
import DurableValue.Proofs.Store.Sibling

namespace DurableValue.Store.Atomic

open Disk (FileSystem Memory Recorded Operation)

/-! ## What a write asks of its disk -/

section

variable {F H : Type} [FileSystem F H]

def sealing (s : Atomic) : List (Operation H) := if s.syncDirectory then [.syncDir s.parent] else []

def filling (s : Atomic) (bs : Bytes) (h : H) : List (Operation H) :=
  (if bs.isEmpty then [] else [.append h bs]) ++ .sync h :: .close h :: .rename s.scratch s.path :: s.sealing

/-- What a write of `bs` asks for, in order, whose scratch file is opened under `h`. -/
def plan (s : Atomic) (bs : Bytes) (h : H) : List (Operation H) :=
  .createDirAll s.parent :: .create s.scratch :: s.filling bs h

variable {s : Atomic} {bs : Bytes}

omit [FileSystem F H] in
theorem asked_of_ask {α : Type} {d d' : Recorded F H} {o : Operation H} {run : F → α × F} {a : α}
    (step : d.ask o run = (a, d')) : d'.asked = o :: d.asked := by
  cases step
  rfl

/-- A write whose scratch file has to go does not return. -/
theorem discard_not_ok {h : Option H} {cause : Error} {d : F} :
    (s.settle bs (.discard h cause) d).1 ≠ .ok () := by
  have fails : (s.settle bs (.discard h cause) d).1 = .error cause := congrArg Prod.snd (ending_discard h cause d)
  rw [fails]
  exact nofun

theorem asked_syncParent {d : Recorded F H} (ok : (s.settle bs .syncParent d).1 = .ok ()) :
    (s.settle bs .syncParent d).2.asked = s.sealing.reverse ++ d.asked := by
  cases syncs : s.syncDirectory with
  | false =>
    have step : s.advance bs .syncParent d = (.done (.ok ()), d) := by simp only [advance, syncs]; rfl
    rw [settle_done step, sealing, syncs]
    rfl
  | true =>
    rcases synced : FileSystem.syncDir d s.parent with ⟨e | ⟨⟩, d'⟩
    · have step : s.advance bs .syncParent d = (.done (.error (s.parentNotSynced e)), d') := by
        simp only [advance, syncs, synced, if_true]
      rw [settle_done step] at ok
      cases ok
    · have step : s.advance bs .syncParent d = (.done (.ok ()), d') := by
        simp only [advance, syncs, synced, if_true]
      rw [settle_done step, sealing, syncs]
      exact asked_of_ask synced

theorem asked_publish {d : Recorded F H} (ok : (s.settle bs .publish d).1 = .ok ()) :
    (s.settle bs .publish d).2.asked = (.rename s.scratch s.path :: s.sealing).reverse ++ d.asked := by
  rcases renamed : FileSystem.rename d s.scratch s.path with ⟨e | ⟨⟩, d'⟩
  · have step : s.advance bs .publish d = (.next (.discard none (.renameFailed s.scratch s.path e)), d') := by
      simp only [advance, renamed]
    rw [settle_next step] at ok
    exact absurd ok discard_not_ok
  · have step : s.advance bs .publish d = (.next .syncParent, d') := by simp only [advance, renamed]
    rw [settle_next step] at ok ⊢
    rw [asked_syncParent ok, asked_of_ask renamed, List.reverse_cons, List.append_assoc]
    rfl

theorem asked_syncScratch {d : Recorded F H} {h : H} (ok : (s.settle bs (.syncScratch h) d).1 = .ok ()) :
    (s.settle bs (.syncScratch h) d).2.asked =
      (.sync h :: .close h :: .rename s.scratch s.path :: s.sealing).reverse ++ d.asked := by
  rcases synced : FileSystem.sync d h with ⟨e | ⟨⟩, d'⟩
  · have step : s.advance bs (.syncScratch h) d = (.next (.discard (some h) (s.scratchNotSynced e)), d') := by
      simp only [advance, synced]
    rw [settle_next step] at ok
    exact absurd ok discard_not_ok
  · have step : s.advance bs (.syncScratch h) d = (.next .publish, FileSystem.close d' h) := by
      simp only [advance, synced]
    have closed : (FileSystem.close d' h).asked = .close h :: d'.asked := rfl
    rw [settle_next step] at ok ⊢
    rw [asked_publish ok, closed, asked_of_ask synced]
    simp only [List.reverse_cons, List.append_assoc]
    rfl

theorem asked_fillScratch {d : Recorded F H} {h : H} (ok : (s.settle bs (.fillScratch h) d).1 = .ok ()) :
    (s.settle bs (.fillScratch h) d).2.asked = (s.filling bs h).reverse ++ d.asked := by
  rcases filled : FileSystem.writeAll d h bs with ⟨e | ⟨⟩, d'⟩
  · have step : s.advance bs (.fillScratch h) d = (.next (.discard (some h) (s.scratchNotWritten e)), d') := by
      simp only [advance, filled]
    rw [settle_next step] at ok
    exact absurd ok discard_not_ok
  · have step : s.advance bs (.fillScratch h) d = (.next (.syncScratch h), d') := by simp only [advance, filled]
    have asked : d'.asked = (if bs.isEmpty then [] else [.append h bs]) ++ d.asked := by
      unfold FileSystem.writeAll at filled
      split at filled <;> rename_i empty
      · cases filled
        rw [if_pos empty]
        rfl
      · rw [if_neg empty]
        exact asked_of_ask filled
    rw [settle_next step] at ok ⊢
    rw [asked_syncScratch ok, asked, filling, List.reverse_append, List.append_assoc]
    cases bs.isEmpty <;> rfl

/-- A write that returns has asked for the operations of its plan, in their order, and for nothing else. -/
theorem asked_write {d : Recorded F H} (ok : (s.write bs d).1 = .ok ()) :
    ∃ h, (s.write bs d).2.asked = (s.plan bs h).reverse ++ d.asked := by
  unfold write at ok ⊢
  rcases made : FileSystem.createDirAll d s.parent with ⟨e | ⟨⟩, d₁⟩
  · have step : s.advance bs .makeParent d = (.done (.error (s.parentMissing e)), d₁) := by simp only [advance, made]
    rw [settle_done step] at ok
    cases ok
  · have step : s.advance bs .makeParent d = (.next .openScratch, d₁) := by simp only [advance, made]
    rw [settle_next step] at ok ⊢
    rcases opened : FileSystem.create d₁ s.scratch with ⟨e | h, d₂⟩
    · have step : s.advance bs .openScratch d₁ = (.next (.discard none (s.scratchNotCreated e)), d₂) := by
        simp only [advance, opened]
      rw [settle_next step] at ok
      exact absurd ok discard_not_ok
    · have step : s.advance bs .openScratch d₁ = (.next (.fillScratch h), d₂) := by simp only [advance, opened]
      rw [settle_next step] at ok ⊢
      refine ⟨h, ?_⟩
      rw [asked_fillScratch ok, asked_of_ask opened, asked_of_ask made, plan]
      simp only [List.reverse_cons, List.append_assoc]
      rfl

end

/-! ## A recorded write is the write -/

section

variable {F H : Type} [FileSystem F H] {s : Atomic} {bs : Bytes}

omit [FileSystem F H] in
theorem ask_of_run {α : Type} {d : Recorded F H} {o : Operation H} {run : F → α × F} {a : α} {k : F}
    (step : run d.disk = (a, k)) : d.ask o run = (a, ⟨k, o :: d.asked⟩) := by
  rw [Recorded.ask, step]

theorem writeAll_recorded {d : Recorded F H} {h : H} {r : Except Disk.IoError Unit} {k : F}
    (step : FileSystem.writeAll d.disk h bs = (r, k)) : ∃ asked, FileSystem.writeAll d h bs = (r, ⟨k, asked⟩) := by
  unfold FileSystem.writeAll at step ⊢
  split at step <;> rename_i empty
  · cases step
    exact ⟨_, if_pos empty⟩
  · rw [if_neg empty]
    exact ⟨_, ask_of_run step⟩

/-- A phase of a recorded write is that phase of the write. -/
theorem advance_recorded {phase : Phase H} {d : Recorded F H} {step : Step H} {k : F}
    (h : s.advance bs phase d.disk = (step, k)) : ∃ asked, s.advance bs phase d = (step, ⟨k, asked⟩) := by
  have swept {cause : Error} {d : Recorded F H} (h : s.sweep cause d.disk = (step, k)) :
      ∃ asked, s.sweep cause d = (step, ⟨k, asked⟩) := by
    unfold sweep at h ⊢
    split at h <;> rename_i looked <;> cases h <;>
      rw [show FileSystem.entryExists d s.scratch = _ from ask_of_run looked] <;> exact ⟨_, rfl⟩
  cases phase with
  | makeParent =>
    simp only [advance] at h ⊢
    split at h <;> rename_i made <;> cases h <;>
      rw [show FileSystem.createDirAll d s.parent = _ from ask_of_run made] <;> exact ⟨_, rfl⟩
  | openScratch =>
    simp only [advance] at h ⊢
    split at h <;> rename_i opened <;> cases h <;>
      rw [show FileSystem.create d s.scratch = _ from ask_of_run opened] <;> exact ⟨_, rfl⟩
  | fillScratch handle =>
    simp only [advance] at h ⊢
    split at h <;> rename_i filled <;> cases h <;> obtain ⟨asked, e⟩ := writeAll_recorded filled <;> rw [e] <;>
      exact ⟨_, rfl⟩
  | syncScratch handle =>
    simp only [advance] at h ⊢
    split at h <;> rename_i synced <;> cases h <;>
      rw [show FileSystem.sync d handle = _ from ask_of_run synced] <;> exact ⟨_, rfl⟩
  | publish =>
    simp only [advance] at h ⊢
    split at h <;> rename_i renamed <;> cases h <;>
      rw [show FileSystem.rename d s.scratch s.path = _ from ask_of_run renamed] <;> exact ⟨_, rfl⟩
  | syncParent =>
    simp only [advance] at h ⊢
    split at h <;> rename_i syncs
    · rw [if_pos syncs]
      split at h <;> rename_i synced <;> cases h <;>
        rw [show FileSystem.syncDir d s.parent = _ from ask_of_run synced] <;> exact ⟨_, rfl⟩
    · cases h
      exact ⟨_, if_neg syncs⟩
  | discard handle cause => cases handle <;> exact swept h
  | removeScratch cause =>
    cases h
    exact ⟨_, rfl⟩

/-- Being recorded changes neither how a write ends nor the disk it leaves. -/
theorem write_recorded (d : Recorded F H) :
    (s.write bs d).1 = (s.write bs d.disk).1 ∧ (s.write bs d).2.disk = (s.write bs d.disk).2 := by
  suffices h : ∀ (phase : Phase H) (k : F) (d : Recorded F H), d.disk = k →
      (s.settle bs phase d).1 = (s.settle bs phase k).1 ∧ (s.settle bs phase d).2.disk = (s.settle bs phase k).2 from
    h .makeParent d.disk d rfl
  intro phase k
  induction phase, k using @walk_induction F H _ s bs with
  | h phase k ih =>
    rintro d rfl
    rcases step : s.advance bs phase d.disk with ⟨next | outcome, k'⟩ <;> obtain ⟨asked, step'⟩ := advance_recorded step
    · rw [settle_next step, settle_next step']
      exact ih next k' step _ rfl
    · rw [settle_done step, settle_done step']
      exact ⟨rfl, rfl⟩

/-- On a disk that records from the start on, a write that returns has asked for its plan. -/
theorem planned_write {d : F} (ok : (s.write bs d).1 = .ok ()) :
    ∃ h : H, (s.write bs (⟨d, []⟩ : Recorded F H)).2.asked.reverse = s.plan bs h := by
  obtain ⟨h, asked⟩ := asked_write ((write_recorded (⟨d, []⟩ : Recorded F H)).1.trans ok)
  exact ⟨h, by rw [asked, List.append_nil, List.reverse_reverse]⟩

end

/-! ## The directories a write makes in memory -/

section

variable {s : Atomic} {bs : Bytes}

/-- Only the first phase touches the directories. -/
theorem dirs_advance {phase : Phase Place} (later : phase ≠ .makeParent) (m : Memory) :
    (s.advance bs phase m).2.dirs = m.dirs := by
  have after {α : Type} {r : α × Memory} {a : α} {m' : Memory} (step : r = (a, m')) (kept : r.2.dirs = m.dirs) :
      m'.dirs = m.dirs := by rwa [step] at kept
  cases phase <;> simp only [advance]
  case makeParent => exact absurd rfl later
  case openScratch => split <;> exact after ‹_› (m.create_dirs s.scratch)
  case fillScratch h =>
    have written : (FileSystem.writeAll m h bs).2.dirs = m.dirs := by
      unfold FileSystem.writeAll
      split
      · rfl
      · exact m.write_dirs h bs
    split <;> exact after ‹_› written
  case syncScratch h => split <;> exact after ‹_› (m.sync_dirs h)
  case publish => split <;> exact after ‹_› (m.rename_dirs s.scratch s.path)
  case syncParent =>
    split
    · split <;> exact after ‹_› (m.syncDir_dirs s.parent)
    · rfl
  case discard h cause => cases h <;> (split <;> exact after ‹_› rfl)
  case removeScratch => exact m.removeFile_dirs s.scratch

theorem dirs_settle {phase : Phase Place} (later : phase.remaining < 8) (m : Memory) :
    (s.settle bs phase m).2.dirs = m.dirs := by
  induction phase, m using @walk_induction Memory Place _ s bs with
  | h phase m ih =>
    have kept : (s.advance bs phase m).2.dirs = m.dirs :=
      dirs_advance (fun first => by rw [first] at later; exact absurd later (by decide)) m
    rcases step : s.advance bs phase m with ⟨next | outcome, m'⟩ <;> rw [step] at kept
    · have below := remaining_advance (congrArg Prod.fst step)
      rw [settle_next step]
      exact (ih next m' step (by omega)).trans kept
    · rw [settle_done step]
      exact kept

/-- A write that returns leaves the directories above its file behind, and makes no other. -/
theorem hasDir_write {m : Memory} (ok : (s.write bs m).1 = .ok ()) (d : Place) :
    (s.write bs m).2.hasDir d = true ↔ m.hasDir d = true ∨ d ∈ s.parent.place.ancestors := by
  have made : FileSystem.createDirAll m s.parent = m.createDirAll s.parent := rfl
  unfold write at ok ⊢
  rcases m.guarded_cases .createDir fun m => (.ok (), m.addDirs s.parent.place) with ⟨-, e⟩ | ⟨-, e⟩
  · rw [settle_done (by simp only [advance, made, Memory.createDirAll, e]; rfl)] at ok
    cases ok
  · rw [settle_next (by simp only [advance, made, Memory.createDirAll, e]; rfl)]
    rw [Memory.hasDir_of_dirs (dirs_settle (by decide) _), m.hasDir_addDirs]

end

/-! ## New entries -/

/-- Whether, of the operations asked for in this order, one after `o` syncs the directory at `q`. -/
def SyncedAfter {H : Type} (asked : List (Operation H)) (o : Operation H) (q : Place) : Prop :=
  ∃ before between after p, asked = before ++ o :: (between ++ .syncDir p :: after) ∧ p.place = q

/-- The entries a write adds in memory, each with the operation that adds it and the directory it is added to: that of
the value file, and that of every directory it makes. -/
inductive Adds (s : Atomic) (before after : Memory) : Operation Place → Place → Prop
  | file {q : Place} (above : s.path.place.parent? = some q) : s.Adds before after (.rename s.scratch s.path) q
  | directory {d q : Place} (missing : before.hasDir d = false) (made : after.hasDir d = true)
    (above : d.parent? = some q) : s.Adds before after (.createDirAll s.parent) q

section

variable {s : Atomic} {bs : Bytes} {H : Type}

/-- The directory that is synced is that of the file, and it is synced after the rename. -/
theorem file_synced (syncs : s.syncDirectory = true) (h : H) :
    SyncedAfter (s.plan bs h) (.rename s.scratch s.path) s.parent.place := by
  refine ⟨.createDirAll s.parent :: .create s.scratch ::
    ((if bs.isEmpty then [] else [.append h bs]) ++ [.sync h, .close h]), [], [], s.parent, ?_, rfl⟩
  simp [plan, filling, sealing, syncs]

/-- No other directory is synced. -/
theorem of_syncedAfter {o : Operation H} {q : Place} {h : H} (synced : SyncedAfter (s.plan bs h) o q) :
    q = s.parent.place := by
  obtain ⟨before, between, after, p, asked, rfl⟩ := synced
  have mem : .syncDir p ∈ s.plan bs h := by rw [asked]; simp
  simp only [plan, filling, sealing, List.mem_cons, List.mem_append, reduceCtorEq, false_or] at mem
  rcases mem with mem | mem
  · split at mem <;> simp at mem
  · split at mem
    · rw [Operation.syncDir.inj (List.mem_singleton.mp mem)]
    · cases mem

/-- The directory above one that a write makes is not the file's own. -/
theorem parent_not_above {d q : Place} (mem : d ∈ s.parent.place.ancestors) (above : d.parent? = some q) :
    q ≠ s.parent.place := by
  intro same
  obtain ⟨-, named, within⟩ := Place.mem_ancestors mem
  have len := within.length_le
  have pos := List.length_pos_iff.mpr named
  unfold Place.parent? at above
  split at above
  · cases above
  · have short := congrArg (·.names.length) ((Option.some.inj above).trans same)
    simp only [List.length_dropLast] at short
    omega

end

theorem parent?_of_mem_ancestors {d q : Place} (mem : d ∈ q.ancestors) :
    d.parent? = some { d with names := d.names.dropLast } := by
  have named : d.isTop = false := by simpa [Place.isTop] using (Place.mem_ancestors mem).2.1
  rw [Place.parent?, named]
  rfl

variable {p : Path} {o : Options} {s : Atomic}

/-- The directory above the file of a store is the one it makes and syncs. -/
theorem parent_of_new (new : Atomic.new p o = .ok s) {q : Place} (above : s.path.place.parent? = some q) :
    s.parent.place = q := by
  obtain ⟨accepted, shape⟩ := of_new new
  obtain ⟨ds, n, up, real⟩ : ∃ ds n, s.parent.place = ⟨true, ds⟩ ∧ s.path.place = ⟨true, ds ++ [n]⟩ := by
    rw [shape]
    exact Path.place_of_accepted accepted
  rw [real] at above
  rw [up]
  simpa [Place.parent?, Place.isTop] using above

/-- **What a write syncs is the directory of its file, after the rename, and no other directory.** On every file system
a write that returns has asked for the operations of one plan, in their order. So the entry of the value file is
durable. The directories that a write makes are those that were missing above the file; none is synced in the directory
it was made in. Every new entry is durable, then, exactly when no directory was missing. -/
theorem new_entries_are_synced_unless_a_directory_was_missing (new : Atomic.new p o = .ok s)
    (syncs : o.syncDirectory = true) (bs : Bytes) :
    (∀ (F H : Type) [FileSystem F H] (disk : F), (s.write bs disk).1 = .ok () →
      ∃ h : H, (s.write bs (⟨disk, []⟩ : Recorded F H)).2.asked.reverse = s.plan bs h) ∧
    ∀ m : Memory, (s.write bs m).1 = .ok () →
      let after := (s.write bs m).2
      let asked := (s.write bs (⟨m, []⟩ : Recorded Memory Place)).2.asked.reverse
      (∀ q, s.path.place.parent? = some q → SyncedAfter asked (.rename s.scratch s.path) q) ∧
      (∀ d, m.hasDir d = false → (after.hasDir d = true ↔ d ∈ s.parent.place.ancestors)) ∧
      (∀ d q, m.hasDir d = false → after.hasDir d = true → d.parent? = some q →
        ∀ o, ¬ SyncedAfter asked o q) ∧
      ((∀ o q, s.Adds m after o q → SyncedAfter asked o q) ↔ s.Made m) := by
  have syncs : s.syncDirectory = true := by
    rw [(of_new new).2]
    exact syncs
  refine ⟨fun F H _ disk ok => planned_write ok, fun m ok => ?_⟩
  intro after asked
  obtain ⟨h, plan⟩ := planned_write ok
  have plan : asked = s.plan bs h := plan
  have grown (d : Place) (missing : m.hasDir d = false) : after.hasDir d = true ↔ d ∈ s.parent.place.ancestors := by
    rw [hasDir_write ok, missing]
    simp
  have file (q : Place) (above : s.path.place.parent? = some q) :
      SyncedAfter asked (.rename s.scratch s.path) q := by
    rw [← parent_of_new new above, plan]
    exact file_synced syncs h
  have unsynced (d q : Place) (missing : m.hasDir d = false) (made : after.hasDir d = true)
      (above : d.parent? = some q) (o : Operation Place) : ¬ SyncedAfter asked o q := fun synced => by
    rw [plan] at synced
    exact parent_not_above ((grown d missing).mp made) above (of_syncedAfter synced)
  refine ⟨file, grown, unsynced, fun all d mem => ?_, fun made o q adds => ?_⟩
  · refine Decidable.byContradiction fun missing => ?_
    have missing := Bool.eq_false_iff.mpr missing
    have made := (grown d missing).mpr mem
    have above := parent?_of_mem_ancestors mem
    exact unsynced d _ missing made above _ (all _ _ (.directory missing made above))
  · cases adds with
    | file above => exact file q above
    | directory missing made' above =>
      rw [made _ ((grown _ missing).mp made')] at missing
      cases missing

theorem a_file_in_a_standing_directory_is_synced :
    let s : Atomic := ⟨⟨"/d/v"⟩, ⟨"/d/v.tmp"⟩, true⟩
    let m : Memory := { dirs := [⟨true, ["d"]⟩], namespaceId := "0" }
    Atomic.new ⟨"/d/v"⟩ {} = .ok s ∧ (s.write [5] m).1 = .ok () ∧
      ∀ o q, s.Adds m (s.write [5] m).2 o q →
        SyncedAfter (s.write [5] (⟨m, []⟩ : Recorded Memory Place)).2.asked.reverse o q := by
  intro s m
  have new : Atomic.new ⟨"/d/v"⟩ {} = .ok s := new_accepted (ok_of_isOk (by decide +kernel)) {}
  have ok : (s.write [5] m).1 = .ok () := ok_of_isOk (by decide +kernel)
  have made : s.Made m := by
    unfold Made
    decide +kernel
  obtain ⟨-, memory⟩ := new_entries_are_synced_unless_a_directory_was_missing new rfl [5]
  exact ⟨new, ok, (memory m ok).2.2.2.mpr made⟩

/-- Two directories are missing above the first file: the write returns, both are made, and the only directory it has
synced is the lower one. The entry of the upper one in the root, and with it the file, can be lost. -/
theorem a_directory_made_on_the_way_is_not_synced :
    let s : Atomic := ⟨⟨"/a/b/v"⟩, ⟨"/a/b/v.tmp"⟩, true⟩
    let m : Memory := { namespaceId := "0" }
    let after := s.write [49] (⟨m, []⟩ : Recorded Memory Place)
    Atomic.new ⟨"/a/b/v"⟩ {} = .ok s ∧ (s.write [49] m).1 = .ok () ∧
      m.hasDir ⟨true, ["a"]⟩ = false ∧ (s.write [49] m).2.hasDir ⟨true, ["a"]⟩ = true ∧
      (⟨true, ["a"]⟩ : Place).parent? = some ⟨true, []⟩ ∧ (Path.mk "/a/b").place ≠ ⟨true, []⟩ ∧
      after.2.asked.reverse.filterMap (fun | .syncDir p => some p | _ => none) = [⟨"/a/b"⟩] := by
  intro s m after
  refine ⟨new_accepted (ok_of_isOk (by decide +kernel)) {}, ok_of_isOk (by decide +kernel), ?_⟩
  decide +kernel

end DurableValue.Store.Atomic
