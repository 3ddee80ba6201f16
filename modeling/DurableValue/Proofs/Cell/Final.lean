/-
  DurableValue.Proofs.Cell.Final — what a final cell tells, and what it no longer does.

  A cell becomes final once, by an error that is not terminal and has no cause of its own, and notes that once. What a
  cell tells of its state (`Tells`) is kept by every event. What it has done (`Deeds`) is left alone by every event
  from the moment it is final, and only closing ends that.

  Proved:
  - `tells_opened`, `tells_updated`, `tells_run`: what is told stands, whatever happens.
  - `happen_final`, `run_final`: a final cell gives its error to everybody who asks and touches nothing: not the disk,
    not the caller's code, not its counts of what was committed.
-/
import DurableValue.Proofs.Cell.Steps

namespace DurableValue.Cell

open Disk (FileSystem)

variable {F H V : Type} [FileSystem F H]

/-- The disk after some events of which the cell itself does nothing to it. -/
def Event.byOthers : Event F V → F → F
  | outside f, disk => f disk
  | _, disk => disk

def byOthers (es : List (Event F V)) (disk : F) : F := es.foldl (fun disk e => e.byOthers disk) disk

/-- What a cell has done by some moment, beside what its disk shows. -/
structure Deeds (F : Type) where
  calls : List (Call × F)
  commits : List (Commit F)
  moments : List (Moment F)
  decodes : Nat
  encodes : Nat
  committed : UInt64
  bytesWritten : UInt64
  finals : List Journal.Line

namespace Session

def deeds (c : Session F V) : Deeds F where
  calls := c.bench.calls
  commits := c.bench.commits
  moments := c.bench.moments
  decodes := c.worker.tally.decodes
  encodes := c.worker.tally.encodes
  committed := c.worker.tally.counters.commits
  bytesWritten := c.worker.tally.counters.bytesWritten
  finals := c.bench.journal.finals

/-! ## What is told of a state -/

/-- What the gist of a cell tells of its state. `before` is what the journal said of other final cells when this one
was built. -/
structure Tells (before : List Journal.Line) (g : Session F V) : Prop where
  final : ∀ t, g.worker.state = .final t →
    ∃ cause, t = .final cause ∧ cause.IsCause ∧ g.bench.journal.noted = g.finalLine cause :: before
  other : (∀ t, g.worker.state ≠ .final t) → g.bench.journal.noted = before
  serving : g.worker.life = .serving → g.worker.status = g.worker.state.status
  closed : g.worker.life = .closed → g.worker.status = .closed
  broken : g.worker.life = .broken → ∀ t, g.worker.state ≠ .final t

variable {before : List Journal.Line} {c c' : Session F V}

/-- A cell that becomes final tells so. -/
theorem tells_enterFinal {cause : Error} (isCause : cause.IsCause) (silent : c.bench.journal.finals = before)
    (serving : c.worker.life = .serving) : Tells before (c.enterFinal cause).2.gist := by
  rw [gist_enterFinal]
  constructor
  · intro t final
    cases final
    exact ⟨cause, rfl, isCause, congrArg (c.finalLine cause :: ·) silent⟩
  · intro none
    exact absurd rfl (none _)
  · intro _
    rfl
  · intro closed
    cases serving.symm.trans closed
  · intro broken
    cases serving.symm.trans broken

/-- A cell that gets a value tells so. -/
theorem tells_enter_ready (v : V) (n : Nat) (silent : c.bench.journal.finals = before)
    (serving : c.worker.life = .serving) : Tells before (c.onWorker (·.enter (.ready v n))).gist := by
  constructor
  · intro t final
    cases final
  · intro _
    exact silent
  · intro _
    rfl
  · intro closed
    cases serving.symm.trans closed
  · intro broken
    cases serving.symm.trans broken

/-- Looking for a store tells nothing of a final state. -/
theorem Resolving.quiet {x : Resolved} (h : Resolving c x c') :
    c'.bench.journal.finals = c.bench.journal.finals ∧ c'.worker.life = c.worker.life ∧
      c'.worker.state = c.worker.state := by
  cases h <;> exact ⟨rfl, rfl, rfl⟩

theorem Resolving.isCause {cause : Error} (h : Resolving c (.refused cause) c') : cause.IsCause := by
  cases h with
  | unavailable => exact ⟨rfl, rfl⟩
  | taken => exact Error.isCause_ofStore _

/-- Work tells nothing of a final state. -/
theorem quiet_of_performed {α : Type} {store : Store.Atomic} {budget : List Use} {P : α → Prop} {t : Task F α}
    {a : Except Stop α} (h : c.perform t = (a, c')) (within : Task.Within store budget P t) :
    c'.bench.journal.finals = c.bench.journal.finals ∧ c'.worker.life = c.worker.life := by
  obtain ⟨worker, us, -, done, -⟩ := performed h within
  refine ⟨done.finals, ?_⟩
  rw [worker]

theorem tells_opened {a : Except Halt Unit} (serving : c.worker.life = .serving) (h : Opened c a c')
    (tells : Tells before c.gist) : Tells before c'.gist := by
  have quiet (fresh : c.worker.state = .uninitialized) : c.bench.journal.finals = before :=
    tells.other fun t final => by cases fresh.symm.trans final
  cases h with
  | ready => exact tells
  | final => exact tells
  | broke fresh resolved =>
    obtain ⟨finals, life, state⟩ := resolved.quiet
    have fresh' := state.trans fresh
    constructor
    · intro t final
      cases fresh'.symm.trans final
    · intro _
      exact finals.trans (quiet fresh)
    · intro serving
      cases serving
    · intro closed
      cases closed
    · intro _ t final
      cases fresh'.symm.trans final
  | refused fresh resolved =>
    obtain ⟨finals, life, -⟩ := resolved.quiet
    exact tells_enterFinal resolved.isCause (finals.trans (quiet fresh)) (life.trans serving)
  | failed fresh resolved performs =>
    obtain ⟨finals, life, -⟩ := resolved.quiet
    obtain ⟨finals', life'⟩ := quiet_of_performed performs (Task.within_firstValue _)
    obtain ⟨-, -, -, -, proper⟩ := performed performs (Task.within_firstValue _)
    exact tells_enterFinal (isCause_stopError proper _ _) (finals'.trans (finals.trans (quiet fresh)))
      (life'.trans (life.trans serving))
  | began fresh resolved performs =>
    obtain ⟨finals, life, -⟩ := resolved.quiet
    obtain ⟨finals', life'⟩ := quiet_of_performed performs (Task.within_firstValue _)
    exact tells_enter_ready _ _ (finals'.trans (finals.trans (quiet fresh))) (life'.trans (life.trans serving))

theorem tells_updated {transform : V → Outcome V} {v : V} {n : Nat} {a : Except Error V}
    (serving : c.worker.life = .serving) (state : c.worker.state = .ready v n) (h : Updated c transform v n a c')
    (tells : Tells before c.gist) : Tells before c'.gist := by
  have quiet : c.bench.journal.finals = before :=
    tells.other fun t final => by cases state.symm.trans final
  have called : Tells before (c.call .transform).gist :=
    ⟨tells.final, tells.other, tells.serving, tells.closed, tells.broken⟩
  cases h with
  | rejected result =>
    rw [gist_note _ _ (by decide), gist_recordTransformFailure]
    exact called
  | unchanged result same =>
    rw [gist_recordUnchanged]
    exact called
  | committed result changed target performs =>
    obtain ⟨finals, life⟩ := quiet_of_performed performs (Task.within_writeValue _)
    rw [gist_publish]
    refine tells_enter_ready _ _ ?_ (life.trans serving)
    exact (Journal.finals_note _ _ (by decide)).trans (finals.trans quiet)
  | lost result changed target performs =>
    obtain ⟨finals, life⟩ := quiet_of_performed performs (Task.within_writeValue _)
    obtain ⟨-, -, -, -, proper⟩ := performed performs (Task.within_writeValue _)
    exact tells_enterFinal (isCause_stopError proper _ _) (finals.trans quiet) (life.trans serving)
  | homeless result changed target => exact tells_enterFinal ⟨rfl, rfl⟩ quiet serving

theorem tells_shutDown (tells : Tells before c.gist) :
    Tells before c.shutDown.gist := by
  rw [gist_shutDown]
  constructor
  · exact tells.final
  · exact tells.other
  · intro serving
    cases serving
  · intro _
    rfl
  · intro broken
    cases broken

theorem tells_run (es : List (Event F V)) (tells : Tells before c.gist) : Tells before (c.run es).2.gist := by
  induction es generalizing c with
  | nil => exact tells
  | cons e es ih =>
    refine ih (happen_keeps (P := fun c => Tells before c.gist) ?_ ?_ ?_ ?_ ?_ tells)
    · intro c c' gist
      rw [gist]
      exact id
    · exact fun _ => tells_shutDown
    · exact tells_opened
    · exact tells_updated
    · exact fun _ tells => ⟨tells.final, tells.other, tells.serving, tells.closed, tells.broken⟩

/-! ## Rest -/

theorem deeds_of_gist (gist : c'.gist = c.gist) : c'.deeds = c.deeds :=
  congrArg (fun g : Session F V =>
    (⟨g.bench.calls, g.bench.commits, g.bench.moments, g.worker.tally.decodes, g.worker.tally.encodes,
      g.worker.tally.counters.commits, g.worker.tally.counters.bytesWritten, g.bench.journal.noted⟩ : Deeds F)) gist

theorem deeds_shutDown : c.shutDown.deeds = c.deeds :=
  congrArg (fun g : Session F V =>
    (⟨g.bench.calls, g.bench.commits, g.bench.moments, g.worker.tally.decodes, g.worker.tally.encodes,
      g.worker.tally.counters.commits, g.worker.tally.counters.bytesWritten, g.bench.journal.noted⟩ : Deeds F))
    (gist_shutDown c)

/-- Whether all that was shown from one moment to another is that the cell was closed, if it was. -/
def OnlyCloses (c c' : Session F V) : Prop :=
  (c'.worker.life = c.worker.life ∧ c'.worker.shown = c.worker.shown) ∨
    (c.worker.life = .serving ∧ c'.worker.life = .closed ∧ c'.worker.shown = .closed :: c.worker.shown)

/-- A final cell stays as it is for every request but one to close. -/
theorem gist_happen_final {t : Error} (final : c.worker.state = .final t) (r : Request V) :
    (c.happen (.request r)).2.gist = c.gist ∨
      c.worker.life = .serving ∧ (c.happen (.request r)).2 = c.shutDown := by
  have refused : c.ensureReady = (.error (.final t), c) := by simp [ensureReady, final]
  cases life : c.worker.life with
  | serving =>
    have way := served c r
    simp only [happen, serve, life, true_and]
    generalize (c.handle r).2 = c' at way ⊢
    cases way with
    | idle _ gist => exact Or.inl gist
    | closed => exact Or.inr rfl
    | ensured _ gist =>
      rw [refused] at gist
      exact Or.inl gist
    | updated ok => cases refused.symm.trans ok
  | closed =>
    simp only [happen, serve, life]
    exact Or.inl (gist_refuse c r)
  | broken =>
    simp only [happen, serve, life]
    exact Or.inl (gist_forsake c r)

theorem happen_final {t : Error} (final : c.worker.state = .final t) (e : Event F V) :
    (c.happen e).2.worker.state = .final t ∧ (c.happen e).2.deeds = c.deeds ∧
      (c.happen e).2.bench.disk = e.byOthers c.bench.disk ∧ c.OnlyCloses (c.happen e).2 := by
  cases e with
  | request r =>
    rcases gist_happen_final final r with gist | ⟨life, same⟩
    · exact ⟨(state_of_gist gist).trans final, deeds_of_gist gist, congrArg (·.bench.disk) gist,
        Or.inl ⟨life_of_gist gist, congrArg (·.worker.shown) gist⟩⟩
    · have gist := gist_shutDown c
      rw [same]
      exact ⟨(state_shutDown c).trans final, deeds_shutDown, congrArg (·.bench.disk) gist,
        Or.inr ⟨life, life_shutDown c, congrArg (·.worker.shown) gist⟩⟩
  | receivers f => exact ⟨final, rfl, rfl, Or.inl ⟨rfl, rfl⟩⟩
  | outside f => exact ⟨final, rfl, rfl, Or.inl ⟨rfl, rfl⟩⟩

theorem OnlyCloses.trans {c'' : Session F V} (h : c.OnlyCloses c') (h' : c'.OnlyCloses c'') : c.OnlyCloses c'' := by
  rcases h with ⟨life, shown⟩ | ⟨serving, closed, shown⟩
  · unfold OnlyCloses
    rw [← life, ← shown]
    exact h'
  · rcases h' with ⟨life', shown'⟩ | ⟨serving', -⟩
    · exact Or.inr ⟨serving, life'.trans closed, shown'.trans shown⟩
    · cases closed.symm.trans serving'

theorem run_final {t : Error} (final : c.worker.state = .final t) (es : List (Event F V)) :
    (c.run es).2.worker.state = .final t ∧ (c.run es).2.deeds = c.deeds ∧
      (c.run es).2.bench.disk = byOthers es c.bench.disk ∧ c.OnlyCloses (c.run es).2 := by
  induction es generalizing c with
  | nil => exact ⟨final, rfl, rfl, Or.inl ⟨rfl, rfl⟩⟩
  | cons e es ih =>
    obtain ⟨final', deeds, disk, closes⟩ := happen_final final e
    obtain ⟨final'', deeds', disk', closes'⟩ := ih final'
    refine ⟨final'', deeds'.trans deeds, disk'.trans ?_, closes.trans closes'⟩
    rw [disk]
    rfl

end Session

/-! ## From the start -/

/-- A cell that was built has told of no final state. -/
theorem tells_of_build {s : Setup V} {location : Location} {hasRuntime : Bool} {b b' : Bench F} {w : Worker V}
    (built : build s (some location) hasRuntime b = (.ok w, b')) :
    Session.Tells b.journal.finals (Session.mk w b').gist := by
  obtain ⟨target, label, registry, fields, rfl, rfl, -⟩ := build_ok built
  constructor
  · intro t final
    cases final
  · intro _
    exact Journal.finals_note _ _ (by decide)
  · intro _
    rfl
  · intro closed
    cases closed
  · intro broken
    cases broken

end DurableValue.Cell
