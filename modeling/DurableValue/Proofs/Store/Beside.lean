/-
  DurableValue.Proofs.Store.Beside — a store beside another one, on a disk without faults.

  The other store has other files and makes no directory at the real path. Whatever it does between any two
  operations, reading (`read_party`) and writing (`ending_party`) then come out as they would on a disk of the store's
  own.
-/
import DurableValue.Proofs.Store.Party
import DurableValue.Proofs.Store.Unarmed

namespace DurableValue.Store

open Disk (FileSystem IoError Memory Fault Primitive Side History Party replay)

namespace Atomic

variable {s : Atomic} {m : Memory} {isDir : Bool}

/-! ## Phases that succeed -/

section

variable {F H : Type} [FileSystem F H] {bs : Bytes} {d : F}

theorem advance_makeParent_ok (h : (FileSystem.createDirAll d s.parent).1 = .ok ()) :
    s.advance bs .makeParent d = (.next .openScratch, (FileSystem.createDirAll d s.parent).2) := by
  simp only [advance]
  rcases e : FileSystem.createDirAll d s.parent with ⟨x, d'⟩
  rw [e] at h
  cases h
  rfl

theorem advance_openScratch_ok {hd : H} (h : (FileSystem.create d s.scratch).1 = .ok hd) :
    s.advance bs .openScratch d = (.next (.fillScratch hd), (FileSystem.create d s.scratch).2) := by
  simp only [advance]
  rcases e : FileSystem.create d s.scratch with ⟨x, d'⟩
  rw [e] at h
  cases h
  rfl

theorem advance_openScratch_error {x : IoError} (h : (FileSystem.create d s.scratch).1 = .error x) :
    s.advance bs .openScratch d =
      (.next (.discard none (s.scratchNotCreated x)), (FileSystem.create d s.scratch).2) := by
  simp only [advance]
  rcases e : FileSystem.create d s.scratch with ⟨y, d'⟩
  rw [e] at h
  cases h
  rfl

theorem advance_fillScratch_ok {hd : H} (h : (FileSystem.writeAll d hd bs).1 = .ok ()) :
    s.advance bs (.fillScratch hd) d = (.next (.syncScratch hd), (FileSystem.writeAll d hd bs).2) := by
  simp only [advance]
  rcases e : FileSystem.writeAll d hd bs with ⟨x, d'⟩
  rw [e] at h
  cases h
  rfl

theorem advance_syncScratch_ok {hd : H} (h : (FileSystem.sync d hd).1 = .ok ()) :
    s.advance bs (.syncScratch hd) d = (.next .publish, FileSystem.close (FileSystem.sync d hd).2 hd) := by
  simp only [advance]
  rcases e : FileSystem.sync d hd with ⟨x, d'⟩
  rw [e] at h
  cases h
  rfl

theorem advance_publish_ok (h : (FileSystem.rename d s.scratch s.path).1 = .ok ()) :
    s.advance bs .publish d = (.next .syncParent, (FileSystem.rename d s.scratch s.path).2) := by
  simp only [advance]
  rcases e : FileSystem.rename d s.scratch s.path with ⟨x, d'⟩
  rw [e] at h
  cases h
  rfl

end

/-! ## Beside another store -/

/-- A disk without faults, on which `isDir` says whether a directory stands at the real path. -/
def Plain (s : Atomic) (isDir : Bool) (m : Memory) : Prop := m.armed = [] ∧ m.hasDir s.path.place = isDir

variable {o : Atomic} {start : Memory} {me : Side} {d : Party} {bs : Bytes}

theorem Plain.move {p : Primitive} (h : s.Plain isDir m) {x : Atomic} (move : x.Move p)
    (above : isDir = true ∨ s.path.place ∉ x.parent.place.ancestors) : s.Plain isDir (p.run m) := by
  refine ⟨Disk.armed_run h.1 p, ?_⟩
  rcases above with rfl | above
  · exact Disk.hasDir_run h.2 p
  · exact (hasDir_move move m above).trans h.2

theorem Plain.replay {es : History} (h : s.Plain isDir m) (moves : ∀ e ∈ es, o.Move e.2)
    (above : isDir = true ∨ s.path.place ∉ o.parent.place.ancestors) : s.Plain isDir (Disk.replay m es) := by
  induction es generalizing m with
  | nil => exact h
  | cons e es ih =>
    exact ih (h.move (moves e List.mem_cons_self) above) fun e he => moves e (List.mem_cons_of_mem _ he)

theorem Made.run (h : s.Made m) (p : Primitive) : s.Made (p.run m) := fun q mem => Disk.hasDir_run (h q mem) p

theorem Made.replay (h : s.Made m) (es : History) : s.Made (Disk.replay m es) := by
  induction es generalizing m with
  | nil => exact h
  | cons e es ih => exact ih (h.run e.2)

/-- A party on a plain disk whose other side makes no directory at the real path, unless one is there already. -/
structure Quiet (s o : Atomic) (start : Memory) (me : Side) (isDir : Bool) (d : Party) : Prop where
  fine : (Sight.party s o start me).fine d
  plain : s.Plain isDir d.disk
  above : isDir = true ∨ s.path.place ∉ o.parent.place.ancestors

theorem Quiet.caughtUp (h : s.Quiet o start me isDir d) : s.Plain isDir d.caughtUp.disk :=
  h.plain.replay (others_moves h.fine) h.above

theorem Quiet.turn {α : Type} {p : Primitive} (h : s.Quiet o start me isDir d) (sited : s.Sited) (move : s.Move p)
    (answer : Memory → α) : s.Quiet o start me isDir (d.turn p answer).2 :=
  ⟨fine_turn h.fine p answer, h.caughtUp.move move (Or.inr (real_not_above sited)), h.above⟩

theorem made_turn {α : Type} (h : s.Made d.disk) (p : Primitive) (answer : Memory → α) :
    s.Made (d.turn p answer).2.disk := (h.replay d.others).run p

theorem Quiet.after (sited : s.Sited) (p : Primitive) (d : Party) (move : s.Move p) (h : s.Quiet o start me isDir d) :
    s.Quiet o start me isDir (Driven.party.after p d) := h.turn sited move fun _ => ()

theorem Plain.after (sited : s.Sited) (p : Primitive) (m : Memory) (move : s.Move p) (h : s.Plain isDir m) :
    s.Plain isDir (p.run m) := h.move move (Or.inr (real_not_above sited))

/-! ## How reading and writing end -/

section

variable (quiet : s.Quiet o start me isDir d) (apart : Apart s o) (sited : s.Sited)

include quiet apart sited in
/-- What is read is what would be read on a disk of the store's own. -/
theorem read_party : (s.read d).1 = s.unarmedReading (d.disk.get? s.path.place) isDir := by
  have same := caughtUp_get? quiet.fine apart.real apart.realScratch
  have unarmed : ({ d.caughtUp.disk with reads := d.caughtUp.disk.reads + 1 } : Memory).armed = [] := quiet.caughtUp.1
  have reading : (FileSystem.read d s.path).1 = (d.caughtUp.disk.read s.path).1 := rfl
  rw [Memory.read, Memory.guarded_unarmed _ unarmed] at reading
  have after : s.Quiet o start me isDir (FileSystem.read d s.path).2 := quiet.turn sited .read _
  have kept : (FileSystem.read d s.path).2.disk.get? s.path.place = d.disk.get? s.path.place :=
    (Memory.read_get? _ _ _).trans same
  unfold Atomic.read unarmedReading
  cases found : d.disk.get? s.path.place with
  | some bs =>
    have held : ({ d.caughtUp.disk with reads := d.caughtUp.disk.reads + 1 } : Memory).get? s.path.place = some bs :=
      same.trans found
    rw [held] at reading
    rcases e : FileSystem.read d s.path with ⟨x, d'⟩
    rw [e] at reading
    cases reading
    rfl
  | none =>
    have held : ({ d.caughtUp.disk with reads := d.caughtUp.disk.reads + 1 } : Memory).get? s.path.place = none :=
      same.trans found
    rw [held] at reading
    rcases e : FileSystem.read d s.path with ⟨x, d'⟩
    rw [e] at reading after kept
    cases reading
    -- The other side may work between the read and the look, but not so that a directory comes or goes.
    have look : (s.fileExists d').1 = isDir := by
      change d'.caughtUp.disk.entryExists s.path = isDir
      rw [Memory.entryExists, caughtUp_get? after.fine apart.real apart.realScratch, kept, found, after.caughtUp.2]
      rfl
    rcases e' : s.fileExists d' with ⟨there, d''⟩
    rw [e'] at look
    cases look
    have missing : (Memory.noFile s.path.place).kind = .notFound := rfl
    simp only [missing, if_true, e']
    cases there <;> rfl

end

/-! ## Phase by phase -/

section

variable (quiet : s.Quiet o start me isDir d) (apart : Apart s o) (sited : s.Sited) (made : s.Made d.disk)

include quiet in
theorem ending_party_syncParent : s.ending bs .syncParent d = (true, .ok ()) := by
  have ok : (FileSystem.syncDir d s.parent).1 = .ok () := by
    change (d.caughtUp.disk.syncDir s.parent).1 = .ok ()
    rw [Memory.syncDir, Memory.guarded_unarmed _ quiet.caughtUp.1]
  cases hs : s.syncDirectory
  · rw [ending_done (by simp only [advance, hs]; rfl)]
    rfl
  · rcases e : FileSystem.syncDir d s.parent with ⟨x, d'⟩
    rw [e] at ok
    cases ok
    rw [ending_done (by simp only [advance, hs, e]; rfl)]
    rfl

include quiet apart sited made in
theorem ending_party_publish {b : Bytes} (scratch : d.disk.get? s.scratch.place = some b) :
    s.ending bs .publish d = (true, .ok ()) := by
  have held := (caughtUp_get? quiet.fine apart.scratchReal apart.scratch).trans scratch
  have ok : (FileSystem.rename d s.scratch s.path).1 = .ok () := by
    change (d.caughtUp.disk.rename s.scratch s.path).1 = .ok ()
    have parent : d.caughtUp.disk.parentExists s.path.place = true :=
      parentExists_real sited (made.replay d.others)
    rw [Memory.rename, Memory.guarded_unarmed _ quiet.caughtUp.1]
    simp only [parent, held]
    rfl
  have after : s.Quiet o start me isDir (FileSystem.rename d s.scratch s.path).2 := quiet.turn sited .publish _
  rw [ending_next (advance_publish_ok ok)]
  exact ending_party_syncParent after

include quiet apart sited made in
theorem ending_party_syncScratch {b : Bytes} {h : Place} (mine : h = s.scratch.place)
    (scratch : d.disk.get? s.scratch.place = some b) : s.ending bs (.syncScratch h) d = (true, .ok ()) := by
  subst mine
  have ok : (FileSystem.sync d s.scratch.place).1 = .ok () := by
    change (d.caughtUp.disk.sync s.scratch.place).1 = .ok ()
    rw [Memory.sync, Memory.guarded_unarmed _ quiet.caughtUp.1]
  have after : s.Quiet o start me isDir (FileSystem.sync d s.scratch.place).2 := quiet.turn sited .syncScratch _
  have held : (FileSystem.sync d s.scratch.place).2.disk.get? s.scratch.place = some b :=
    (Memory.sync_get? _ _ _).trans ((caughtUp_get? quiet.fine apart.scratchReal apart.scratch).trans scratch)
  rw [ending_next (advance_syncScratch_ok ok)]
  exact ending_party_publish after apart sited (made_turn made _ _) held

include quiet apart sited made in
theorem ending_party_fillScratch {h : Place} (mine : h = s.scratch.place)
    (scratch : d.disk.get? s.scratch.place = some []) : s.ending bs (.fillScratch h) d = (true, .ok ()) := by
  subst mine
  have held := (caughtUp_get? quiet.fine apart.scratchReal apart.scratch).trans scratch
  by_cases empty : bs.isEmpty = true
  · have all : FileSystem.writeAll d s.scratch.place bs = (.ok (), d) := by rw [FileSystem.writeAll, if_pos empty]
    rw [ending_next (advance_fillScratch_ok (congrArg Prod.fst all)), all]
    exact ending_party_syncScratch quiet apart sited made rfl scratch
  · have torn : d.caughtUp.disk.isArmed .write = false := by rw [Memory.isArmed, quiet.caughtUp.1]; rfl
    have ok : (FileSystem.append d s.scratch.place bs).1 = .ok () :=
      congrArg Prod.fst (d.caughtUp.disk.append_unarmed held torn)
    obtain ⟨old, found, grown⟩ := Memory.append_ok d.caughtUp.disk ok
    cases held.symm.trans found
    have all : FileSystem.writeAll d s.scratch.place bs = (.ok (), (FileSystem.append d s.scratch.place bs).2) := by
      rw [FileSystem.writeAll, if_neg empty, ← ok]
    have after : s.Quiet o start me isDir (FileSystem.append d s.scratch.place bs).2 :=
      quiet.turn sited (.fillScratch bs) _
    rw [ending_next (advance_fillScratch_ok (congrArg Prod.fst all)), all]
    exact ending_party_syncScratch after apart sited (made_turn made _ _) rfl grown

include quiet apart sited made in
theorem ending_party_openScratch : s.ending bs .openScratch d = s.unarmedEnding isDir := by
  have plain := quiet.caughtUp
  have parent := parentExists_scratch sited (made.replay d.others) plain.2
  unfold unarmedEnding
  cases reaches : s.reachesScratch isDir <;> rw [reaches] at parent
  · have failed : (FileSystem.create d s.scratch).1 = .error (Memory.noParent s.scratch.place) := by
      change (d.caughtUp.disk.create s.scratch).1 = _
      have parent : d.caughtUp.disk.parentExists s.scratch.place = false := parent
      simp only [Memory.create, parent]
      rfl
    rw [ending_next (advance_openScratch_error failed), ending_discard]
    rfl
  · have ok : (FileSystem.create d s.scratch).1 = .ok s.scratch.place := by
      change (d.caughtUp.disk.create s.scratch).1 = _
      have parent : d.caughtUp.disk.parentExists s.scratch.place = true := parent
      simp only [Memory.create, parent]
      rfl
    have after : s.Quiet o start me isDir (FileSystem.create d s.scratch).2 := quiet.turn sited .openScratch _
    have empty : (FileSystem.create d s.scratch).2.disk.get? s.scratch.place = some [] :=
      (Memory.create_ok d.caughtUp.disk ok).2
    rw [ending_next (advance_openScratch_ok ok)]
    exact ending_party_fillScratch after apart sited (made_turn made _ _) rfl empty

include quiet apart sited in
/-- A write ends as it does on a disk of the store's own. -/
theorem ending_party : s.ending bs .makeParent d = s.unarmedEnding isDir := by
  have ok : (FileSystem.createDirAll d s.parent).1 = .ok () := by
    change (d.caughtUp.disk.createDirAll s.parent).1 = .ok ()
    rw [Memory.createDirAll, Memory.guarded_unarmed _ quiet.caughtUp.1]
  have after : s.Quiet o start me isDir (FileSystem.createDirAll d s.parent).2 := quiet.turn sited .makeParent _
  have standing : s.Made (FileSystem.createDirAll d s.parent).2.disk := by
    intro q mem
    change (d.caughtUp.disk.createDirAll s.parent).2.hasDir q = true
    rw [Memory.createDirAll, Memory.guarded_unarmed _ quiet.caughtUp.1]
    exact (Memory.hasDir_addDirs _ _ _).mpr (Or.inr mem)
  rw [ending_next (advance_makeParent_ok ok)]
  exact ending_party_openScratch after apart sited standing

end

end Atomic

end DurableValue.Store
