/-
  DurableValue.Proofs.Store.Sibling — when the scratch file is a sibling of the real one.

  A configuration refuses a suffix that could leave the directory, but the suffix is put behind the text of the path
  and not behind its last name. A path whose text ends in a slash or in a lone dot is accepted, and then the scratch
  file lies below the real one, or is the real one, or stands in the place of its directory.

  Proved:
  - `beside_iff_endsInStep`: the scratch file is a sibling exactly when the text ends in a step.
  - `opensScratchOnly_write`: a write opens nothing but the scratch file.
  - `scratch_file_beside`: then every write in memory succeeds where no fault is armed, and is what is read next.
-/
import DurableValue.Config.Basic
import DurableValue.Proofs.Disk.Recorded
import DurableValue.Proofs.Store.Moves
import DurableValue.Proofs.Store.Unarmed

namespace DurableValue

namespace Place

/-- Whether two places are in one directory, under different names. -/
def Beside (p q : Place) : Prop :=
  p.parent?.isSome = true ∧ q.parent? = p.parent? ∧ q.names.getLast? ≠ p.names.getLast?

instance (p q : Place) : Decidable (p.Beside q) := inferInstanceAs (Decidable (_ ∧ _))

theorem beside_iff {ds : List String} {n : String} {q : Place} :
    Beside ⟨true, ds ++ [n]⟩ q ↔ ∃ m, m ≠ n ∧ q = ⟨true, ds ++ [m]⟩ := by
  have up : Place.parent? ⟨true, ds ++ [n]⟩ = some ⟨true, ds⟩ := by simp [parent?, isTop]
  constructor
  · rintro ⟨-, same, other⟩
    rw [up] at same
    unfold parent? at same
    split at same
    · cases same
    · rename_i named
      obtain ⟨rooted, names⟩ := q
      rcases List.eq_nil_or_concat names with rfl | ⟨init, m, rfl⟩
      · exact absurd rfl named
      · simp only [List.concat_eq_append, List.dropLast_concat, Option.some.injEq, Place.mk.injEq] at same
        obtain ⟨rfl, rfl⟩ := same
        refine ⟨m, fun e => other ?_, by rw [List.concat_eq_append]⟩
        simp [e]
  · rintro ⟨m, other, rfl⟩
    refine ⟨by rw [up]; rfl, ?_, ?_⟩
    · rw [up]
      simp [parent?, isTop]
    · simpa using other

theorem Beside.ne {p q : Place} (h : p.Beside q) : q ≠ p := by
  rintro rfl
  exact h.2.2 rfl

end Place

namespace Config

/-- A suffix that passes the check is not empty and holds no slash. -/
theorem suffix_of_valid {c : Config} (valid : c.validate = .ok ()) :
    c.scratchSuffix ≠ "" ∧ '/' ∉ c.scratchSuffix.toList := by
  unfold validate at valid
  split at valid
  · cases valid
  · rename_i filled
    split at valid
    · cases valid
    · rename_i free
      exact ⟨fun e => filled (by rw [e]; rfl), fun mem => free (by simpa using mem)⟩

/-- A configuration that is read from a text is valid. -/
theorem valid_of_parse {text : String} {c : Config} (parsed : Config.parse text = .ok c) : c.validate = .ok () := by
  unfold Config.parse at parsed
  split at parsed
  · cases parsed
  · rename_i c' _
    cases valid : c'.validate with
    | error e =>
      rw [valid] at parsed
      cases parsed
    | ok _ =>
      rw [valid] at parsed
      cases parsed
      exact valid

end Config

namespace Disk

def Operation.opened? {H : Type} : Operation H → Option Path
  | create p => some p
  | _ => none

end Disk

namespace Store.Atomic

open Disk (FileSystem Memory Recorded)

/-! ## What a write opens -/

section

variable {F H : Type} [FileSystem F H] {s : Atomic} {bs : Bytes}

def OpensScratchOnly (s : Atomic) (d : Recorded F H) : Prop := ∀ o ∈ d.asked, ∀ p, o.opened? = some p → p = s.scratch

omit [FileSystem F H] in
theorem OpensScratchOnly.ask {d d' : Recorded F H} (h : s.OpensScratchOnly d) {o : Disk.Operation H}
    (asked : d'.asked = o :: d.asked) (own : o.opened?.getD s.scratch = s.scratch) : s.OpensScratchOnly d' := by
  intro o' mem p opened
  rw [asked] at mem
  rcases List.mem_cons.mp mem with rfl | mem
  · rw [opened] at own
    exact own
  · exact h o' mem p opened

theorem opensScratchOnly_advance {d : Recorded F H} (h : s.OpensScratchOnly d) (phase : Phase H) :
    s.OpensScratchOnly (s.advance bs phase d).2 := by
  have after {α : Type} {r : α × Recorded F H} {a : α} {d' : Recorded F H} (step : r = (a, d'))
      (kept : s.OpensScratchOnly r.2) : s.OpensScratchOnly d' := by rwa [step] at kept
  cases phase <;> simp only [advance]
  case makeParent => split <;> exact after ‹_› (h.ask rfl rfl)
  case openScratch => split <;> exact after ‹_› (h.ask rfl rfl)
  case fillScratch handle =>
    have written : s.OpensScratchOnly (FileSystem.writeAll d handle bs).2 := by
      unfold FileSystem.writeAll
      split
      · exact h
      · exact h.ask rfl rfl
    split <;> exact after ‹_› written
  case syncScratch =>
    split
    · exact (after ‹_› (h.ask rfl rfl)).ask rfl rfl
    · exact after ‹_› (h.ask rfl rfl)
  case publish => split <;> exact after ‹_› (h.ask rfl rfl)
  case syncParent =>
    split
    · split <;> exact after ‹_› (h.ask rfl rfl)
    · exact h
  case discard handle cause =>
    cases handle with
    | none => split <;> exact after ‹_› (h.ask rfl rfl)
    | some handle =>
      have closed : s.OpensScratchOnly (FileSystem.close d handle) := h.ask rfl rfl
      split <;> exact after ‹_› (closed.ask rfl rfl)
  case removeScratch => exact h.ask rfl rfl

/-- A write opens nothing but the scratch file, on any file system. -/
theorem opensScratchOnly_write (disk : F) : s.OpensScratchOnly (s.write bs (⟨disk, []⟩ : Recorded F H)).2 := by
  suffices h : ∀ phase (d : Recorded F H), s.OpensScratchOnly d → s.OpensScratchOnly (s.settle bs phase d).2 from
    h .makeParent _ fun _ mem => absurd mem List.not_mem_nil
  intro phase d
  induction phase, d using @walk_induction (Recorded F H) H _ s bs with
  | h phase d ih =>
    intro h
    have kept : s.OpensScratchOnly (s.advance bs phase d).2 := opensScratchOnly_advance h phase
    rcases step : s.advance bs phase d with ⟨next | outcome, d'⟩ <;> rw [step] at kept
    · rw [settle_next step]
      exact ih next d' step kept
    · rw [settle_done step]
      exact kept

end

/-! ## Where the scratch file is -/

variable {s : Atomic} {p : Path}

/-- A check that passes has nothing to say. -/
theorem ok_of_isOk {ε : Type} {r : Except ε Unit} (h : r.isOk = true) : r = .ok () := by
  cases r with
  | error e => cases h
  | ok _ => rfl

theorem new_accepted (accepted : checkPath p = .ok ()) (o : Options) :
    Atomic.new p o = .ok ⟨p, p.withSuffix o.scratchSuffix, o.syncDirectory⟩ := by
  rw [Atomic.new, accepted]
  rfl

theorem of_new {o : Options} (new : Atomic.new p o = .ok s) :
    checkPath p = .ok () ∧ s = ⟨p, p.withSuffix o.scratchSuffix, o.syncDirectory⟩ := by
  unfold Atomic.new at new
  cases accepted : checkPath p with
  | error e => rw [accepted] at new; cases new
  | ok _ =>
    rw [accepted] at new
    cases new
    exact ⟨rfl, rfl⟩

theorem beside_iff_endsInStep {c : Config} (valid : c.validate = .ok ()) (new : Atomic.new p c.storeOptions = .ok s) :
    s.path.place.Beside s.scratch.place ↔ p.endsInStep = true := by
  obtain ⟨accepted, rfl⟩ := of_new new
  obtain ⟨filled, free⟩ := Config.suffix_of_valid valid
  obtain ⟨ds, n, -, real⟩ := Path.place_of_accepted accepted
  change p.place.Beside (p.withSuffix c.scratchSuffix).place ↔ _
  rw [real, Place.beside_iff]
  constructor
  · rintro ⟨m, other, scratch⟩
    refine Decidable.byContradiction fun astray => ?_
    have idle : p.endsInStep = false := Bool.eq_false_iff.mpr astray
    rcases Path.scratch_place_idle accepted free real idle with e | ⟨k, e⟩ | e
    · have same : ds ++ [n] = ds ++ [m] := congrArg Place.names (e.symm.trans scratch)
      exact other (by simpa using same.symm)
    · have same := congrArg (·.names.length) (e.symm.trans scratch)
      simp only [List.length_append, List.length_singleton] at same
      omega
    · have same := congrArg (·.names.length) (e.symm.trans scratch)
      simp only [List.length_append, List.length_singleton] at same
      omega
  · intro step
    refine ⟨n ++ c.scratchSuffix, fun same => filled ?_, Path.scratch_place_step accepted free real step⟩
    have := congrArg String.toList same
    simpa using this

/-- Of any other text the scratch file is the real one, lies below it, or takes the place of its directory. -/
theorem astray_of_not_endsInStep {c : Config} (valid : c.validate = .ok ())
    (new : Atomic.new p c.storeOptions = .ok s) (idle : p.endsInStep = false) :
    s.scratch.place = s.path.place ∨ s.scratch.place.parent? = some s.path.place ∨
      s.path.place.parent? = some s.scratch.place := by
  obtain ⟨accepted, rfl⟩ := of_new new
  obtain ⟨ds, n, -, real⟩ := Path.place_of_accepted accepted
  change (p.withSuffix c.scratchSuffix).place = p.place ∨ (p.withSuffix c.scratchSuffix).place.parent? = some p.place ∨
    p.place.parent? = some (p.withSuffix c.scratchSuffix).place
  rcases Path.scratch_place_idle accepted (Config.suffix_of_valid valid).2 real idle with e | ⟨m, e⟩ | e <;>
    rw [e, real]
  · exact Or.inl rfl
  · exact Or.inr (Or.inl (by simp [Place.parent?, Place.isTop]))
  · exact Or.inr (Or.inr (by simp [Place.parent?, Place.isTop]))

/-- A scratch file beside the real one has its directory once the directories are made. -/
theorem reachesScratch_of_beside (sited : s.Sited) (beside : s.path.place.Beside s.scratch.place) (isDir : Bool) :
    s.reachesScratch isDir = true := by
  obtain ⟨ds, n, up, real⟩ := sited.real
  rw [real, Place.beside_iff] at beside
  obtain ⟨m, -, scratch⟩ := beside
  have above : s.scratch.place.parent? = some ⟨true, ds⟩ := by simp [scratch, Place.parent?, Place.isTop]
  simp only [reachesScratch, above]
  by_cases top : ds = []
  · simp [Place.isTop, top]
  · have mem : (⟨true, ds⟩ : Place) ∈ s.parent.place.ancestors := by
      rw [up]
      exact Place.ancestors_of_prefix rfl top (List.prefix_refl ds)
    rw [decide_eq_true mem, Bool.or_true, Bool.true_or]

/-- What was written is read where no fault is armed. -/
theorem read_write {bs : Bytes} {m : Memory} (unarmed : m.armed = []) (ok : (s.write bs m).1 = .ok ()) :
    (s.read (s.write bs m).2).1 = .ok (some bs) := by
  have after : (s.write bs m).2.armed = [] :=
    Driven.memory.kept_write (P := fun m => m.armed = []) (fun p _ _ h => Disk.armed_run h p) unarmed
  have clear : (s.write bs m).2.isArmed .read = false := by
    rw [Memory.isArmed, after]
    rfl
  rw [read_unarmed s _ clear, write_ok_contents ok]
  rfl

/-- **The scratch file is a sibling of the real one exactly when the text of the path ends in a step.** Then every write
in memory succeeds where no fault is armed, whatever the disk holds; it opens nothing for writing that is at the real
path, and what is read next is what was written. Of any other text the scratch file is the real one, lies below it, or
takes the place of its directory. -/
theorem scratch_file_beside (c : Config) (valid : c.validate = .ok ()) (new : Atomic.new p c.storeOptions = .ok s) :
    (s.path.place.Beside s.scratch.place ↔ p.endsInStep = true) ∧
      (p.endsInStep = false → s.scratch.place = s.path.place ∨ s.scratch.place.parent? = some s.path.place ∨
        s.path.place.parent? = some s.scratch.place) ∧
      (p.endsInStep = true → ∀ (bs : Bytes) (m : Memory), m.armed = [] →
        (s.write bs m).1 = .ok () ∧
        (∀ o ∈ (s.write bs (⟨m, []⟩ : Recorded Memory Place)).2.asked, ∀ q, o.opened? = some q →
          q.place ≠ s.path.place) ∧
        (s.read (s.write bs m).2).1 = .ok (some bs)) := by
  have beside_iff := beside_iff_endsInStep valid new
  refine ⟨beside_iff, astray_of_not_endsInStep valid new, fun step bs m unarmed => ?_⟩
  have beside := beside_iff.mpr step
  have sited := sited_of_new new (Config.suffix_of_valid valid).2
  have ok : (s.write bs m).1 = .ok () := by
    rw [write_outcome, verdict_unarmed sited unarmed, unarmedEnding, reachesScratch_of_beside sited beside]
    rfl
  refine ⟨ok, fun o asked q opened => ?_, read_write unarmed ok⟩
  rw [opensScratchOnly_write m o asked q opened]
  exact beside.ne

theorem a_name_at_the_end_keeps_the_scratch_file_beside :
    let c : Config := {}
    let s : Atomic := ⟨⟨"/d/./v"⟩, ⟨"/d/./v.tmp"⟩, true⟩
    let m : Memory := { namespaceId := "0" }
    c.validate = .ok () ∧ Atomic.new ⟨"/d/./v"⟩ c.storeOptions = .ok s ∧ s.path.place.Beside s.scratch.place ∧
      (s.write [5] m).1 = .ok () ∧ (s.read (s.write [5] m).2).1 = .ok (some [5]) := by
  intro c s m
  have valid : c.validate = .ok () := ok_of_isOk (by decide +kernel)
  have new : Atomic.new ⟨"/d/./v"⟩ c.storeOptions = .ok s := new_accepted (ok_of_isOk (by decide +kernel)) _
  have ends : Path.endsInStep ⟨"/d/./v"⟩ = true := by decide +kernel
  obtain ⟨beside, -, works⟩ := scratch_file_beside c valid new
  obtain ⟨ok, -, back⟩ := works ends [5] m rfl
  exact ⟨valid, new, beside.mpr ends, ok, back⟩

/-- Behind a slash the default suffix names a file below the real one, and a lone dot, which is a suffix that passes the
check, names the real file itself. -/
theorem a_slash_at_the_end_puts_the_scratch_file_astray :
    let plain : Config := {}
    let dot : Config := { scratchSuffix := "." }
    let below : Atomic := ⟨⟨"/d/v/"⟩, ⟨"/d/v/.tmp"⟩, true⟩
    let onItself : Atomic := ⟨⟨"/d/v/"⟩, ⟨"/d/v/."⟩, true⟩
    let m : Memory := { namespaceId := "0" }
    plain.validate = .ok () ∧ Atomic.new ⟨"/d/v/"⟩ plain.storeOptions = .ok below ∧
      below.scratch.place.parent? = some below.path.place ∧
      (below.write [5] m).1 = .error (below.scratchNotCreated (Memory.noParent below.scratch.place)) ∧
      dot.validate = .ok () ∧ Atomic.new ⟨"/d/v/"⟩ dot.storeOptions = .ok onItself ∧
      onItself.scratch.place = onItself.path.place := by
  intro plain dot below onItself m
  have valid : plain.validate = .ok () := ok_of_isOk (by decide +kernel)
  have accepted : checkPath ⟨"/d/v/"⟩ = .ok () := ok_of_isOk (by decide +kernel)
  have new : Atomic.new ⟨"/d/v/"⟩ plain.storeOptions = .ok below := new_accepted accepted _
  have astray : below.reachesScratch (m.hasDir below.path.place) = false := by decide +kernel
  refine ⟨valid, new, by decide +kernel, ?_, ok_of_isOk (by decide +kernel), new_accepted accepted _, by decide +kernel⟩
  rw [write_outcome, verdict_unarmed (sited_of_new new (Config.suffix_of_valid valid).2) rfl, unarmedEnding, astray]
  rfl

end Store.Atomic

end DurableValue
