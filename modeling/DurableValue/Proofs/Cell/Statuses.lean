/-
  DurableValue.Proofs.Cell.Statuses — the statuses of a cell, in order.

  A cell shows that it is uninitialized, then that it is initializing, then the versions of its value, one after
  another; that may end with the final status, and that of a closed cell comes last. How far a cell has come is told
  by its state, and where its value lives goes with that: a cell that serves and is ready has its store open, and one
  that has not tried for a value yet has something to try (`Coherent`).

  Proved:
  - `coherent_happen`, `coherent_run`: the two stay coherent.
  - `not_strays`: so the branches in which the worker would report a mistake of its own are never taken.
  - `allowed_run`, `sends_run`: whoever waits is told of no other error than that of a transform, the terminal error,
    or that the cell is closed.
  - `statuses_come_in_order`: what is shown and what is told, over all runs of a mailbox.
-/
import DurableValue.Proofs.Cell.Answers
import DurableValue.Proofs.Cell.Once
import DurableValue.Proofs.Cell.Reopened

namespace DurableValue.Cell

open Disk (FileSystem Memory)

variable {F H V : Type} [FileSystem F H]

def Status.stage : Nat → Status
  | 0 => .uninitialized
  | 1 => .initializing
  | n + 2 => .ready n

def Error.Code.ending : List Error.Code :=
  [.ioFailure, .dataCorruption, .configInvalid, .collaboratorFailed, .internal]

/-- The codes of the errors that may be told to whoever waits. -/
def Error.Code.told : List Error.Code := [.transformFailed, .terminal, .closed]

theorem Error.code_ofStore_mem (e : Store.Error) : (Error.ofStore e).code ∈ Code.ending := by
  simp only [ofStore, code]
  split <;> decide

theorem Error.OfWork.code_mem {e : Error} (h : e.OfWork) : e.code ∈ Code.ending := by
  cases h with
  | store => exact Error.code_ofStore_mem _
  | codec => simp [codecFailed, code, Code.ending]
  | corruption => simp [dataCorruption, code, Code.ending]
  | collaborator => simp [collaboratorFailed, code, Code.ending]

namespace Session

/-- Whatever ends work early, its code is one that may make a cell final. -/
theorem code_stopError_mem {α : Type} {P : α → Prop} {stop : Stop} (proper : Task.Proper P (.error stop))
    (c : Session F V) (work : String) : (c.stopError work stop).code ∈ Error.Code.ending := by
  cases stop with
  | failed e => exact Error.OfWork.code_mem proper
  | broke m => simp [stopError, Error.internal, Error.code, Error.Code.ending]

/-! ## What was shown -/

/-- How many stages a cell has come through. A worker that broke did so in the second one. -/
def Reached (m : Nat) (c : Session F V) : Prop :=
  match c.worker.state with
  | .uninitialized => m = if c.worker.life = .broken then 2 else 1
  | .ready _ n => m = n + 3
  | .final _ => 2 ≤ m

def story (m : Nat) (c : Session F V) : List Status :=
  (List.range m).map Status.stage ++
    (match c.worker.state with
      | .final _ => [c.worker.state.status]
      | _ => []) ++
    if c.worker.life = .closed then [.closed] else []

/-- Whether what a cell has shown, its state, and the place of its value go together. -/
structure Coherent (c : Session F V) : Prop where
  shown : ∃ m, c.Reached m ∧ c.worker.shown.reverse = c.story m
  /-- A cell that has not tried for a value has something to try. -/
  untried : c.worker.life = .serving → c.worker.state = .uninitialized → c.worker.target ≠ .unavailable
  stored : c.worker.life = .serving → ∀ v n, c.worker.state = .ready v n → ∃ e, c.worker.target = .opened e
  final : ∀ t, c.worker.state = .final t →
    ∃ cause, t = .final cause ∧ cause.cause = none ∧ cause.code ∈ Error.Code.ending
  broken : c.worker.life = .broken → c.worker.state = .uninitialized ∧ c.worker.target = .unavailable

variable {c c' : Session F V}

/-- Nothing but the gist of a session matters here. -/
theorem Coherent.of_gist (gist : c'.gist = c.gist) (coherent : c.Coherent) : c'.Coherent := by
  have state := state_of_gist gist
  have life := life_of_gist gist
  have shown : c'.worker.shown = c.worker.shown := congrArg (·.worker.shown) gist
  have target : c'.worker.target = c.worker.target := congrArg (·.worker.target) gist
  obtain ⟨m, reached, told⟩ := coherent.shown
  refine ⟨⟨m, ?_, ?_⟩, ?_, ?_, ?_, ?_⟩
  · rwa [Reached, state, life]
  · rwa [story, shown, state, life]
  · rw [life, state, target]
    exact coherent.untried
  · rw [life, state, target]
    exact coherent.stored
  · rw [state]
    exact coherent.final
  · rw [life, state, target]
    exact coherent.broken

/-- A cell that serves and has begun may become final. -/
theorem coherent_enterFinal {m : Nat} {cause : Error} (serving : c.worker.life = .serving) (begun : 2 ≤ m)
    (shown : c.worker.shown.reverse = (List.range m).map Status.stage) (first : cause.cause = none)
    (code : cause.code ∈ Error.Code.ending) : (c.enterFinal cause).2.Coherent := by
  have gist := gist_enterFinal c cause
  have state : (c.enterFinal cause).2.worker.state = .final (.final cause) := congrArg (·.worker.state) gist
  have life : (c.enterFinal cause).2.worker.life = .serving := (congrArg (·.worker.life) gist).trans serving
  have told : (c.enterFinal cause).2.worker.shown = (State.final (.final cause) : State V).status :: c.worker.shown :=
    congrArg (·.worker.shown) gist
  refine ⟨⟨m, ?_, ?_⟩, ?_, ?_, ?_, ?_⟩
  · rw [Reached, state]
    exact begun
  · rw [told, List.reverse_cons, shown, story, state, life]
    simp
  · intro _ fresh
    cases state.symm.trans fresh
  · intro _ v n ready
    cases state.symm.trans ready
  · intro t final
    cases state.symm.trans final
    exact ⟨cause, rfl, first, code⟩
  · intro broken
    cases life.symm.trans broken

/-- A cell that serves may show the next version, if its store is open. -/
theorem coherent_enter_ready {v : V} {n : Nat} {e : Store.Exclusive} (serving : c.worker.life = .serving)
    (shown : c.worker.shown.reverse = (List.range (n + 2)).map Status.stage) (target : c.worker.target = .opened e) :
    (c.onWorker (·.enter (.ready v n))).Coherent := by
  refine ⟨⟨n + 3, rfl, ?_⟩, ?_, ?_, ?_, ?_⟩
  · have told : (c.onWorker (·.enter (.ready v n))).worker.shown = .ready n :: c.worker.shown := rfl
    have stages : (List.range (n + 3)).map Status.stage = (List.range (n + 2)).map Status.stage ++ [.ready n] := by
      rw [List.range_succ, List.map_append]
      rfl
    rw [told, List.reverse_cons, shown, ← stages]
    simp [story, onWorker, Worker.enter, Worker.reveal, serving]
  · intro _ fresh
    cases fresh
  · exact fun _ _ _ _ => ⟨e, target⟩
  · intro t final
    cases final
  · intro broken
    cases serving.symm.trans broken

/-! ## What keeps it so -/

/-- Looking for a store shows nothing. -/
theorem Resolving.shows {x : Resolved} (h : Resolving c x c') :
    c'.worker.shown = c.worker.shown ∧ c'.worker.life = c.worker.life := by
  cases h <;> exact ⟨rfl, rfl⟩

/-- A store that is found is open. -/
theorem Resolving.opens {store : Store.Atomic} (h : Resolving c (.found store) c') :
    ∃ e, c'.worker.target = .opened e := by
  cases h with
  | opened target => exact ⟨_, target⟩
  | claimed => exact ⟨_, rfl⟩

/-- Work shows nothing, and leaves the store open. -/
theorem shows_of_perform {α : Type} {t : Task F α} {a : Except Stop α} (h : c.perform t = (a, c')) :
    c'.worker.shown = c.worker.shown ∧ c'.worker.life = c.worker.life ∧ c'.worker.target = c.worker.target := by
  obtain ⟨-, worker, -⟩ := of_perform h
  rw [worker]
  exact ⟨rfl, rfl, rfl⟩

theorem Coherent.shown_fresh (coherent : c.Coherent) (serving : c.worker.life = .serving)
    (fresh : c.worker.state = .uninitialized) : c.worker.shown.reverse = (List.range 1).map Status.stage := by
  obtain ⟨m, reached, shown⟩ := coherent.shown
  rw [Reached, fresh, serving] at reached
  rw [shown, story, fresh, serving, show m = 1 from reached]
  rfl

theorem Coherent.shown_ready {v : V} {n : Nat} (coherent : c.Coherent) (serving : c.worker.life = .serving)
    (state : c.worker.state = .ready v n) : c.worker.shown.reverse = (List.range (n + 3)).map Status.stage := by
  obtain ⟨m, reached, shown⟩ := coherent.shown
  rw [Reached, state] at reached
  rw [shown, story, state, serving, show m = n + 3 from reached]
  simp

theorem coherent_opened {a : Except Halt Unit} (serving : c.worker.life = .serving) (h : Opened c a c')
    (coherent : c.Coherent) : c'.Coherent := by
  have begun (fresh : c.worker.state = .uninitialized) :
      (c.onWorker (·.reveal .initializing)).worker.shown.reverse = (List.range 2).map Status.stage := by
    simp only [onWorker, Worker.reveal, List.reverse_cons, coherent.shown_fresh serving fresh]
    rfl
  cases h with
  | ready => exact coherent
  | final => exact coherent
  | broke fresh resolved =>
    rename_i c₁
    obtain ⟨shown, -⟩ := Resolving.shows resolved
    cases resolved with
    | panicked target =>
      have told := begun fresh
      refine ⟨⟨2, ?_, ?_⟩, fun serves => ?_, fun serves => ?_, ?_, fun _ => ⟨fresh, rfl⟩⟩
      · simp [Reached, onWorker, Worker.reveal, call, fresh]
      · simp only [story, onWorker, Worker.reveal, call, fresh] at told ⊢
        simpa using told
      · cases serves
      · cases serves
      · intro t final
        cases fresh.symm.trans final
  | refused fresh resolved =>
    obtain ⟨shown, life⟩ := Resolving.shows resolved
    refine coherent_enterFinal (life.trans serving) (Nat.le_refl 2) (shown ▸ begun fresh) resolved.isCause.2 ?_
    cases resolved with
    | unavailable target => exact absurd target (coherent.untried serving fresh)
    | taken => exact Error.code_ofStore_mem _
  | failed fresh resolved performs =>
    obtain ⟨shown, life⟩ := Resolving.shows resolved
    obtain ⟨shown', life', -⟩ := shows_of_perform performs
    obtain ⟨-, -, -, -, proper⟩ := performed performs (Task.within_firstValue _)
    exact coherent_enterFinal (life'.trans (life.trans serving)) (Nat.le_refl 2)
      (by rw [shown', shown]; exact begun fresh) (isCause_stopError proper _ _).2 (code_stopError_mem proper _ _)
  | began fresh resolved performs =>
    obtain ⟨shown, life⟩ := Resolving.shows resolved
    obtain ⟨shown', life', target⟩ := shows_of_perform performs
    obtain ⟨e, opens⟩ := Resolving.opens resolved
    exact coherent_enter_ready (life'.trans (life.trans serving)) (by rw [shown', shown]; exact begun fresh)
      (target.trans opens)

theorem coherent_ensured {a : Except Halt Unit} (serving : c.worker.life = .serving) (ensured : c.ensureReady = (a, c'))
    (coherent : c.Coherent) : c'.Coherent := by
  have opens := coherent_opened serving (opened c) coherent
  rwa [ensured] at opens

theorem coherent_updated {transform : V → Outcome V} {v : V} {n : Nat} {a : Except Error V}
    (serving : c.worker.life = .serving) (state : c.worker.state = .ready v n) (h : Updated c transform v n a c')
    (coherent : c.Coherent) : c'.Coherent := by
  have called : (c.call .transform).Coherent :=
    ⟨coherent.shown, coherent.untried, coherent.stored, coherent.final, coherent.broken⟩
  have told := coherent.shown_ready serving state
  cases h with
  | rejected => exact called.of_gist ((gist_note _ _ (by decide) _).trans (gist_recordTransformFailure _))
  | unchanged => exact called.of_gist (gist_recordUnchanged _)
  | committed _ _ target performs =>
    obtain ⟨shown, life, kept⟩ := shows_of_perform performs
    refine Coherent.of_gist (gist_publish _ _) ?_
    refine coherent_enter_ready (life.trans serving) ?_ (kept.trans target)
    exact (congrArg List.reverse shown).trans told
  | lost _ _ _ performs =>
    obtain ⟨shown, life, -⟩ := shows_of_perform performs
    obtain ⟨-, -, -, -, proper⟩ := performed performs (Task.within_writeValue _)
    exact coherent_enterFinal (life.trans serving) (Nat.le_add_left 2 (n + 1))
      ((congrArg List.reverse shown).trans told) (isCause_stopError proper _ _).2 (code_stopError_mem proper _ _)
  | homeless _ _ homeless =>
    obtain ⟨e, target⟩ := coherent.stored serving v n state
    exact absurd target (homeless e)

theorem coherent_shutDown (serving : c.worker.life = .serving) (coherent : c.Coherent) : c.shutDown.Coherent := by
  have state := state_shutDown c
  have life := life_shutDown c
  have shown : c.shutDown.worker.shown = .closed :: c.worker.shown := congrArg (·.worker.shown) (gist_shutDown c)
  obtain ⟨m, reached, told⟩ := coherent.shown
  refine ⟨⟨m, ?_, ?_⟩, ?_, ?_, ?_, ?_⟩
  · rw [Reached, serving] at reached
    rwa [Reached, state, life]
  · rw [shown, List.reverse_cons, told, story, story, state, life, serving]
    simp
  · intro up
    cases life.symm.trans up
  · intro up
    cases life.symm.trans up
  · rw [state]
    exact coherent.final
  · intro broken
    cases life.symm.trans broken

theorem coherent_happen (e : Event F V) (coherent : c.Coherent) : (c.happen e).2.Coherent :=
  happen_keeps Coherent.of_gist coherent_shutDown coherent_opened coherent_updated
    (fun _ coherent => ⟨coherent.shown, coherent.untried, coherent.stored, coherent.final, coherent.broken⟩) coherent

theorem coherent_run (es : List (Event F V)) (coherent : c.Coherent) : (c.run es).2.Coherent := by
  induction es generalizing c with
  | nil => exact coherent
  | cons e es ih => exact ih (coherent_happen e coherent)

/-! ## Workers that are down -/

/-- A worker that does not serve any more stays as it is. -/
theorem life_happen_of_down (down : c.worker.life ≠ .serving) (e : Event F V) :
    (c.happen e).2.worker.life = c.worker.life := by
  cases e with
  | request r =>
    cases life : c.worker.life with
    | serving => exact absurd life down
    | closed =>
      simp only [happen, serve, life]
      exact (life_of_gist (gist_refuse c r)).trans life
    | broken =>
      simp only [happen, serve, life]
      exact (life_of_gist (gist_forsake c r)).trans life
  | receivers f => rfl
  | outside f => rfl

theorem life_of_down (down : c.worker.life ≠ .serving) (es : List (Event F V)) :
    (c.run es).2.worker.life = c.worker.life := by
  induction es generalizing c with
  | nil => rfl
  | cons e es ih =>
    have step := life_happen_of_down down e
    exact (ih (step ▸ down)).trans step

/-! ## Versions -/

/-- Whether a request is an update that commits: its transform makes of the value one that is not the same, the encoding
of that is written, and the update is answered with it. -/
def Commits (r : Request V) (next : V) (c : Session F V) : Prop :=
  ∃ transform v n commit before, r = .update transform true ∧ c.ensureReady.2.worker.state = .ready v n ∧
    (transform v).result = .ok next ∧ c.worker.setup.same next v = false ∧
    (c.happen (.request r)).2.bench.commits = commit :: before ∧ c.worker.setup.codec.encode next = .ok commit.bytes ∧
    (commit.store.write commit.bytes commit.disk).1 = .ok () ∧ (c.happen (.request r)).1 = [.answer (.ok next)]

/-- To see to the value of a cell leaves its version as it is. -/
theorem version_of_ensured {v : V} {n : Nat} (ensured : c.ensureReady = (.ok (), c'))
    (state : c'.worker.state = .ready v n) : n = c.version := by
  cases before : c.worker.state with
  | ready w m =>
    rw [ensureReady_ready c before] at ensured
    cases ensured
    exact (version_ready state).symm
  | final t => simp [ensureReady, before] at ensured
  | uninitialized =>
    obtain ⟨-, w, -, -, ready, -⟩ := ensureReady_ok before ensured
    cases ready.symm.trans state
    rw [version, before]

theorem setup_of_ensured {a : Except Halt Unit} (ensured : c.ensureReady = (a, c')) :
    c'.worker.setup = c.worker.setup := by
  have kept := setup_opened (opened c)
  rwa [ensured] at kept

/-- A transform of the value moves the version on by one if its result is committed, and leaves it otherwise. -/
theorem version_updated {transform : V → Outcome V} {v : V} {n : Nat} {a : Except Error V}
    (state : c.worker.state = .ready v n) (h : Updated c transform v n a c') :
    (∃ t, c'.worker.state = .final t ∧ a = .error t) ∨
      (c'.worker.state = .ready v n ∧ ∀ next, a = .ok next → c.worker.setup.same next v = true) ∨
      ∃ next commit before, c'.worker.state = .ready next (n + 1) ∧ a = .ok next ∧ (transform v).result = .ok next ∧
        c.worker.setup.same next v = false ∧ c'.bench.commits = commit :: before ∧
        c.worker.setup.codec.encode next = .ok commit.bytes ∧
        (commit.store.write commit.bytes commit.disk).1 = .ok () := by
  cases h with
  | rejected => exact Or.inr (Or.inl ⟨state, nofun⟩)
  | unchanged _ same =>
    refine Or.inr (Or.inl ⟨state, fun next ok => ?_⟩)
    cases ok
    exact same
  | committed result changed target performs =>
    rename_i next e size c₁
    obtain ⟨ran, -⟩ := of_perform performs
    obtain ⟨bs, encoded, written, commits, -⟩ := Task.writeValue_ok ran
    refine Or.inr (Or.inr ⟨next, ⟨e.store, bs, c.bench.disk⟩, c.bench.commits, state_of_gist (gist_publish _ _), rfl,
      result, changed, ?_, encoded, congrArg Prod.fst written⟩)
    exact (congrArg Core.commits (core_publish _ next)).trans commits
  | lost => exact Or.inl ⟨_, rfl, rfl⟩
  | homeless => exact Or.inl ⟨_, rfl, rfl⟩

theorem not_ready_of_halt {h : Halt} (ensured : c.ensureReady = (.error h, c')) (v : V) (n : Nat) :
    c'.worker.state ≠ .ready v n := by
  have ended := opened c
  rw [ensured] at ended
  intro ready
  cases ended with
  | final final => cases final.symm.trans ready
  | broke fresh resolved =>
    have state := resolved.quiet.2.2.trans fresh
    cases state.symm.trans ready
  | refused => cases ready
  | failed => cases ready

/-- An update that commits moves the version on by one. -/
theorem version_of_commits {r : Request V} {next : V} (commits : c.Commits r next) :
    (c.happen (.request r)).2.worker.state = .ready next (c.version + 1) := by
  obtain ⟨transform, v, n, -, -, rfl, state, -, changed, -, -, -, answer⟩ := commits
  cases life : c.worker.life with
  | closed => simp [happen, serve, life, refuse] at answer
  | broken => simp [happen, serve, life, forsake, refuse] at answer
  | serving =>
    simp only [happen, serve, life] at answer ⊢
    rcases ensured : c.ensureReady with ⟨halt | ⟨⟩, c₁⟩ <;> simp only [handle, ensured] at answer state ⊢
    · cases answer
    · have ok : (c₁.update transform).1 = .ok next := by simpa using answer
      rcases version_updated state (updated state transform) with
        ⟨t, -, failed⟩ | ⟨-, same⟩ | ⟨next', -, -, state', ok', -⟩
      · cases ok.symm.trans failed
      · have unchanged := same next ok
        rw [setup_of_ensured ensured, changed] at unchanged
        cases unchanged
      · cases ok.symm.trans ok'
        rw [← version_of_ensured ensured state]
        exact state'

/-- Nothing else moves the version. -/
theorem version_of_others {e : Event F V} (others : ∀ r next, e = .request r → ¬ c.Commits r next) {w : V} {m : Nat}
    (ready : (c.happen e).2.worker.state = .ready w m) : m = c.version := by
  cases e with
  | receivers f => exact (version_ready (c := c) ready).symm
  | outside f => exact (version_ready (c := c) ready).symm
  | request r =>
    have still {c' : Session F V} (same : c'.worker.state = c.worker.state) (ready : c'.worker.state = .ready w m) :
        m = c.version := (version_ready (same.symm.trans ready)).symm
    cases life : c.worker.life with
    | closed =>
      simp only [happen, serve, life] at ready
      exact still (state_of_gist (gist_refuse c r)) ready
    | broken =>
      simp only [happen, serve, life] at ready
      exact still (state_of_gist (gist_forsake c r)) ready
    | serving =>
      have way := served c r
      have handled : (c.happen (.request r)).2 = (c.handle r).2 := by simp only [happen, serve, life]
      rw [handled] at ready
      generalize ends : (c.handle r).2 = c' at way ready
      cases way with
      | idle _ gist => exact still (state_of_gist gist) ready
      | closed => exact still (state_shutDown c) ready
      | ensured _ gist =>
        have ready₁ := (state_of_gist gist).symm.trans ready
        rcases ensured : c.ensureReady with ⟨halt | ⟨⟩, c₁⟩ <;> rw [ensured] at ready₁
        · exact absurd ready₁ (not_ready_of_halt ensured w m)
        · exact version_of_ensured ensured ready₁
      | updated ok life₁ state =>
        rename_i transform c₁ v n
        -- The cell is final now, or ready as before, or the update has committed, which is excluded.
        rcases version_updated state (updated state transform) with
          ⟨t, final, -⟩ | ⟨same, -⟩ | ⟨next, commit, before, -, answer, result, changed, commits, encoded, written⟩
        · cases final.symm.trans ready
        · cases same.symm.trans ready
          exact version_of_ensured ok state
        · rw [setup_of_ensured ok] at changed encoded
          refine absurd ⟨transform, v, n, commit, before, rfl, ?_, result, changed, ?_, encoded, written, ?_⟩
            (others _ next rfl)
          · rw [ok]
            exact state
          · rw [handled, ends]
            exact commits
          · simp only [happen, serve, life, handle, ok, answer]

/-! ## Branches that are not taken -/

/-- Whether a request leads the worker into a branch that is there for mistakes of its own: it looks for a store where
there is nothing to find, an update or a reading reaches a cell without a value, or a commit finds no store open. -/
def Strays (r : Request V) (c : Session F V) : Prop :=
  c.Takes r ∧
    ((c.worker.state = .uninitialized ∧ c.worker.target = .unavailable) ∨
      ∃ c₁, c.ensureReady = (.ok (), c₁) ∧
        (c₁.worker.state = .uninitialized ∨
          ∃ transform v n next, r = .update transform true ∧ c₁.worker.state = .ready v n ∧
            (transform v).result = .ok next ∧ c₁.worker.setup.same next v = false ∧
            ∀ e, c₁.worker.target ≠ .opened e))

theorem not_strays (coherent : c.Coherent) (r : Request V) : ¬ c.Strays r := by
  rintro ⟨⟨serving, -⟩, ⟨fresh, nowhere⟩ | ⟨c₁, ensured, astray⟩⟩
  · exact coherent.untried serving fresh nowhere
  · obtain ⟨life, v, n, ready⟩ := ready_of_ensured ensured
    obtain ⟨e, target⟩ := (coherent_ensured serving ensured coherent).stored (life.trans serving) v n ready
    rcases astray with fresh | ⟨-, -, -, -, -, -, -, -, homeless⟩
    · cases ready.symm.trans fresh
    · exact homeless e target

/-! ## What is told -/

/-- Whether `P` allows everything that a cell tells while it serves: values, and the errors of transforms and of final
cells. -/
structure Allows (P : Except Error V → Prop) : Prop where
  value : ∀ v, P (.ok v)
  rejected : ∀ reason, P (.error (.transformFailed reason))
  final : ∀ cause, P (.error (.final cause))

def Fit (x : Except Error V) : Prop := ∀ e, x = .error e → e.code ∈ Error.Code.told

theorem allows_fit : Allows (Fit (V := V)) where
  value _ := nofun
  rejected reason := by
    rintro e ⟨⟩
    simp [Error.transformFailed, Error.code, Error.Code.told]
  final cause := by
    rintro e ⟨⟩
    simp [Error.final, Error.code, Error.Code.told]

theorem fit_closed : Fit (.error .closed : Except Error V) := by
  rintro e ⟨⟩
  simp [Error.closed, Error.code, Error.Code.told]

section

variable {P : Except Error V → Prop}

theorem Coherent.allowed (allows : Allows P) (coherent : c.Coherent) {t : Error} (final : c.worker.state = .final t) :
    P (.error t) := by
  obtain ⟨cause, rfl, -⟩ := coherent.final t final
  exact allows.final cause

theorem allowed_of_halt {h : Halt} (allows : Allows P) (serving : c.worker.life = .serving)
    (ensured : c.ensureReady = (.error h, c')) (closed : c'.worker.life ≠ .serving → P (.error .closed))
    (coherent : c.Coherent) : P (.error h.error) := by
  cases h with
  | final t => exact (coherent_ensured serving ensured coherent).allowed allows (final_of_ensured ensured)
  | broken =>
    refine closed fun serves => ?_
    cases (broken_of_ensured ensured).1.symm.trans serves

theorem Allows.updated (allows : Allows P) {transform : V → Outcome V} {v : V} {n : Nat} {a : Except Error V}
    (h : Updated c transform v n a c') : P a := by
  cases h with
  | rejected => exact allows.rejected _
  | unchanged => exact allows.value _
  | committed => exact allows.value _
  | lost => exact allows.final _
  | homeless => exact allows.final _

/-- Whatever a request is answered with is allowed, if the error of a closed cell is, once the cell serves no more. -/
theorem allowed_happen (allows : Allows P) {r : Request V}
    (closed : (c.happen (.request r)).2.worker.life ≠ .serving → P (.error .closed)) (coherent : c.Coherent)
    {x : Except Error V} (answer : .answer x ∈ (c.happen (.request r)).1) : P x := by
  cases life : c.worker.life with
  | serving =>
    simp only [happen, serve, life, List.mem_singleton] at answer closed
    cases r with
    | update transform isAwaited =>
      cases isAwaited with
      | false => cases answer
      | true =>
        rcases ensured : c.ensureReady with ⟨halt | ⟨⟩, c₁⟩ <;>
          simp only [handle, ensured, Reply.answer.injEq] at answer closed
        · subst answer
          exact allowed_of_halt allows life ensured closed coherent
        · obtain ⟨-, v, n, state⟩ := ready_of_ensured ensured
          subst answer
          exact allows.updated (updated state transform)
    | read isAwaited =>
      cases isAwaited with
      | false => cases answer
      | true =>
        rcases ensured : c.ensureReady with ⟨halt | ⟨⟩, c₁⟩ <;>
          simp only [handle, ensured, Reply.answer.injEq] at answer closed
        · subst answer
          exact allowed_of_halt allows life ensured closed coherent
        · obtain ⟨-, v, n, state⟩ := ready_of_ensured ensured
          rw [answer, read, state]
          exact allows.value v
    | subscribe i =>
      simp only [handle] at answer
      split at answer
      · split at answer
        · cases answer
        · cases answer
        · split at answer <;> cases answer
      · cases answer
    | close => cases answer
  | closed | broken =>
    have idle : c.worker.life ≠ .serving := fun serves => by cases life.symm.trans serves
    have down : (c.happen (.request r)).2.worker.life ≠ .serving := by
      rw [life_happen_of_down idle]
      exact idle
    simp only [happen, serve, life, forsake, List.mem_singleton] at answer
    cases r with
    | update transform isAwaited | read isAwaited =>
      cases isAwaited <;> cases answer
      exact closed down
    | subscribe i => cases answer
    | close => cases answer

theorem allowed_run (allows : Allows P) {es : List (Event F V)}
    (closed : (c.run es).2.worker.life ≠ .serving → P (.error .closed)) (coherent : c.Coherent) {x : Except Error V}
    (answer : .answer x ∈ (c.run es).1) : P x := by
  induction es generalizing c with
  | nil => cases answer
  | cons e es ih =>
    rw [run_cons] at answer closed
    rcases List.mem_append.mp answer with now | later
    · cases e with
      | request r =>
        refine allowed_happen allows (fun down => closed ?_) coherent now
        rw [life_of_down down]
        exact down
      | receivers f => cases now
      | outside f => cases now
    · exact ih closed (coherent_happen e coherent) later

def SendsOnly (P : Except Error V → Prop) (c : Session F V) : Prop := ∀ f ∈ c.worker.feeds, ∀ x ∈ f.sent, P x

theorem SendsOnly.of_feeds (feeds : c'.worker.feeds = c.worker.feeds) (sends : c.SendsOnly P) : c'.SendsOnly P := by
  rw [SendsOnly, feeds]
  exact sends

omit [FileSystem F H] in
theorem sends_modify {g : Feed V → Feed V} (keeps : ∀ f, (∀ x ∈ f.sent, P x) → ∀ x ∈ (g f).sent, P x)
    {fs : List (Feed V)} (sends : ∀ f ∈ fs, ∀ x ∈ f.sent, P x) (i : Nat) :
    ∀ f ∈ fs.modify i g, ∀ x ∈ f.sent, P x := by
  intro f hf
  obtain ⟨n, found⟩ := List.mem_iff_getElem?.mp hf
  rw [List.getElem?_modify] at found
  obtain ⟨f₀, found₀, rfl⟩ := Option.map_eq_some_iff.mp found
  have before := sends f₀ (List.mem_of_getElem? found₀)
  split
  · exact keeps f₀ before
  · exact before

omit [FileSystem F H] in
theorem sends_foldl {g : Feed V → Feed V} (keeps : ∀ f, (∀ x ∈ f.sent, P x) → ∀ x ∈ (g f).sent, P x)
    (ns : List Nat) {fs : List (Feed V)} (sends : ∀ f ∈ fs, ∀ x ∈ f.sent, P x) :
    ∀ f ∈ ns.foldl (fun fs n => fs.modify n g) fs, ∀ x ∈ f.sent, P x := by
  induction ns generalizing fs with
  | nil => exact sends
  | cons n ns ih => exact ih (sends_modify keeps sends n)

omit [FileSystem F H] in
theorem sends_send {x : Except Error V} (allowed : P x) (f : Feed V) (sends : ∀ y ∈ f.sent, P y) :
    ∀ y ∈ (f.send x).sent, P y := by
  unfold Feed.send
  split
  · exact sends
  · intro y hy
    rcases List.mem_append.mp hy with hy | hy
    · exact sends y hy
    · cases List.mem_singleton.mp hy
      exact allowed

theorem sends_publish (allows : Allows P) (v : V) (sends : c.SendsOnly P) : (c.publish v).SendsOnly P := by
  unfold publish SendsOnly
  rw [(feeds_checkAttached _).1]
  simp only [onWorker, Worker.tell_eq]
  exact sends_foldl (sends_send (allows.value v)) _ sends

theorem sends_attach (allows : Allows P) (v : V) (i : Nat) (sends : c.SendsOnly P) : (c.attach v i).SendsOnly P := by
  unfold attach SendsOnly
  rw [(feeds_checkAttached _).1]
  exact sends_modify (sends_send (allows.value v)) sends i

theorem sends_dismiss {w : Worker V} (sends : ∀ f ∈ w.feeds, ∀ x ∈ f.sent, P x) :
    ∀ f ∈ w.dismiss.feeds, ∀ x ∈ f.sent, P x := by
  rw [Worker.dismiss_eq]
  exact sends_foldl (g := Feed.finish) (fun _ sends => sends) _ sends

theorem sends_enterFinal (allows : Allows P) (cause : Error) (sends : c.SendsOnly P) :
    (c.enterFinal cause).2.SendsOnly P := by
  refine sends_dismiss (w := c.worker.tell (.error (.final cause))) ?_
  rw [Worker.tell_eq]
  exact sends_foldl (sends_send (allows.final cause)) _ sends

theorem sends_turnAway {e : Error} (allowed : P (.error e)) (i : Nat) (sends : c.SendsOnly P) :
    (c.turnAway i e).SendsOnly P :=
  sends_modify (g := fun f => (f.send (.error e)).finish) (sends_send allowed) sends i

theorem sends_letGo (i : Nat) (sends : c.SendsOnly P) : (c.letGo i).SendsOnly P :=
  sends_modify (g := Feed.finish) (fun _ sends => sends) sends i

theorem sends_shutDown (sends : c.SendsOnly P) : c.shutDown.SendsOnly P := sends_dismiss sends

theorem sends_updated (allows : Allows P) {transform : V → Outcome V} {v : V} {n : Nat} {a : Except Error V}
    (h : Updated c transform v n a c') (sends : c.SendsOnly P) : c'.SendsOnly P := by
  have called : (c.call .transform).SendsOnly P := sends
  cases h with
  | rejected => exact sends
  | unchanged => exact sends
  | committed _ _ _ performs =>
    exact sends_publish allows _ (SendsOnly.of_feeds (lists_of_performed performs).1 called)
  | lost _ _ _ performs => exact sends_enterFinal allows _ (called.of_feeds (lists_of_performed performs).1)
  | homeless => exact sends_enterFinal allows _ called

theorem sends_refuse (closed : P (.error .closed)) (r : Request V) (sends : c.SendsOnly P) :
    (c.refuse r).2.SendsOnly P := by
  unfold refuse
  split
  case h_5 => exact sends_turnAway closed _ sends
  all_goals exact sends

theorem sends_handle (allows : Allows P) (r : Request V) (serving : c.worker.life = .serving) (listed : c.Listed)
    (coherent : c.Coherent) (sends : c.SendsOnly P) : (c.handle r).2.SendsOnly P := by
  cases r with
  | update transform isAwaited =>
    cases isAwaited with
    | false => exact sends
    | true =>
      rcases ensured : c.ensureReady with ⟨halt | ⟨⟩, c₁⟩ <;>
        have sends₁ := sends.of_feeds (feeds_of_ensured listed ensured) <;>
        simp only [handle, ensured]
      · exact sends₁
      · obtain ⟨-, v, n, state⟩ := ready_of_ensured ensured
        exact sends_updated allows (updated state transform) sends₁
  | read isAwaited =>
    cases isAwaited with
    | false => exact sends
    | true =>
      rcases ensured : c.ensureReady with ⟨halt | ⟨⟩, c₁⟩ <;>
        have sends₁ := sends.of_feeds (feeds_of_ensured listed ensured) <;>
        simp only [handle, ensured] <;> exact sends₁
  | subscribe i =>
    simp only [handle]
    split
    · rcases ensured : c.ensureReady with ⟨(t | _) | ⟨⟩, c₁⟩ <;>
        have sends₁ := sends.of_feeds (feeds_of_ensured listed ensured)
      · have told := (coherent_ensured serving ensured coherent).allowed allows (final_of_ensured ensured)
        exact sends_turnAway told i sends₁
      · exact sends_letGo i sends₁
      · obtain ⟨-, v, n, state⟩ := ready_of_ensured ensured
        simp only [state]
        exact sends_attach allows v i sends₁
    · exact sends_letGo i sends
  | close => exact sends_shutDown sends

end

/-! ## In order -/

/-- What holds of a cell whose path is given, or made without a panic. -/
structure InOrder (c : Session F V) : Prop where
  /-- It has shown the stages up to some point, the final status if it is final, and that it is closed if it is. -/
  shown : ∃ m, c.Reached m ∧ c.worker.shown.reverse = c.story m
  serves : c.worker.life ≠ .broken
  status : c.worker.status = if c.worker.life = .closed then .closed else c.worker.state.status
  /-- A cell that is ready has its store open, as long as it serves. -/
  stored : c.worker.life = .serving → ∀ v n, c.worker.state = .ready v n → ∃ e, c.worker.target = .opened e
  final : ∀ t, c.worker.state = .final t →
    t.code = .terminal ∧ ∃ cause, t.cause = some cause ∧ cause.code ∈ Error.Code.ending ∧ cause.cause = none
  direct : ∀ r, ¬ c.Strays r

theorem Coherent.inOrder {before : List Journal.Line} (coherent : c.Coherent) (tells : Tells before c.gist)
    (serves : c.worker.life ≠ .broken) : c.InOrder where
  shown := coherent.shown
  serves := serves
  status := by
    cases life : c.worker.life with
    | serving => exact tells.serving life
    | closed => exact tells.closed life
    | broken => exact absurd life serves
  stored := coherent.stored
  final := fun t final => by
    obtain ⟨cause, rfl, first, code⟩ := coherent.final t final
    exact ⟨rfl, cause, rfl, code, first⟩
  direct := not_strays coherent

end Session

/-- A cell that was built has shown that it is uninitialized, and has its store open or a path to make. -/
theorem coherent_of_build {s : Setup V} {location : Location} {hasRuntime : Bool} {b b' : Bench F} {w : Worker V}
    (built : build s (some location) hasRuntime b = (.ok w, b')) : (Session.mk w b').Coherent := by
  obtain ⟨target, label, registry, fields, rfl, -, place⟩ := build_ok built
  refine ⟨⟨1, rfl, rfl⟩, fun _ _ nowhere => ?_, nofun, nofun, nofun⟩
  have nowhere : target = .unavailable := nowhere
  cases location with
  | produced producer => cases place.1.symm.trans nowhere
  | path p =>
    obtain ⟨e, opened, -⟩ := place
    cases opened.symm.trans nowhere

theorem sends_of_build {s : Setup V} {location : Location} {hasRuntime : Bool} {b b' : Bench F} {w : Worker V}
    (built : build s (some location) hasRuntime b = (.ok w, b')) {P : Except Error V → Prop} :
    (Session.mk w b').SendsOnly P := by
  obtain ⟨target, label, registry, fields, rfl, -, -⟩ := build_ok built
  exact nofun

namespace Mailbox

variable {c : Session F V} {m m' : Mailbox F V} {a : Act F V}

section

variable {P : Except Error V → Prop}

/-- No act sends anything to a subscription but what is allowed, if the error of a closed cell is, once the worker has
shut down. -/
theorem sends_acted (allows : Session.Allows P) (closed : m'.turn.isServing = false → P (.error .closed))
    (books : m.Books) (listed : m.session.Listed) (coherent : m.session.Coherent) (way : Acted m a m')
    (sends : m.session.SendsOnly P) : m'.session.SendsOnly P := by
  have joins (q : Query V) : (m.join q).session.SendsOnly P := by
    unfold join
    cases q.isSubscribe with
    | false => exact sends
    | true =>
      intro f hf
      rcases List.mem_append.mp hf with hf | hf
      · exact sends f hf
      · cases List.mem_singleton.mp hf
        exact nofun
  have touches (n : Nat) {g : Feed V → Feed V} (sent : ∀ f, (g f).sent = f.sent) :
      (m.onFeed n g).session.SendsOnly P := by
    unfold onFeed
    split
    · exact Session.sends_modify (fun f sends => by rw [sent]; exact sends) sends _
    · exact sends
  cases way with
  | nothing | rested | handles | sealed | finished | answered | outside => exact sends
  | asked q => exact joins q
  | turnedAway q some isShut =>
    have stopped : m.turn.isServing = false := by
      refine Bool.eq_false_iff.mpr fun serves => ?_
      cases (books.serving serves).2.1.symm.trans isShut
    exact Session.sends_refuse (closed stopped) _ (joins q)
  | left n => exact touches n fun _ => rfl
  | received n =>
    refine touches n fun f => ?_
    unfold Feed.next
    split <;> rfl
  | took l rest turn =>
    have serving := (books.serving (by rw [turn]; rfl)).1
    exact Session.sends_handle allows _ serving listed coherent sends
  | closing | deserted => exact Session.sends_shutDown sends
  | drained l rest turn => exact Session.sends_refuse (closed (by simp only [turn]; rfl)) _ sends

theorem stopped_run (steady : Steady c) (orderly : m.Orderly c) (stopped : m.turn.isServing = false)
    (as : List (Act F V)) : (m.run as).turn.isServing = false := by
  induction as generalizing m with
  | nil => exact stopped
  | cons a as ih =>
    have way := acted m (orderly.ran.steady steady).sound a
    exact ih (orderly_acted steady orderly way) (resting_acted stopped way).1

theorem sends_run (allows : Session.Allows P) (steady : Steady c) (coherent : c.Coherent) (as : List (Act F V))
    (orderly : m.Orderly c) (closed : (m.run as).turn.isServing = false → P (.error .closed))
    (sends : m.session.SendsOnly P) : (m.run as).session.SendsOnly P := by
  induction as generalizing m with
  | nil => exact sends
  | cons a as ih =>
    have now := orderly.ran.steady steady
    have way := acted m now.sound a
    have coherent' : m.session.Coherent := by
      obtain ⟨es, -, -, session, -⟩ := orderly.ran
      exact session ▸ Session.coherent_run es coherent
    have orderly' := orderly_acted steady orderly way
    exact ih orderly' closed (sends_acted allows (fun stopped => closed (stopped_run steady orderly' stopped as))
      orderly.books now.listed coherent' way sends)

/-- Whatever a caller has heard is allowed, if the error of a closed cell is, once the worker has shut down. -/
theorem Orderly.allowed (allows : Session.Allows P) (orderly : m.Orderly c) (coherent : c.Coherent)
    (closed : m.turn.isServing = false → P (.error .closed)) {k : Caller V} (mem : k ∈ m.callers)
    {x : Except Error V} (heard : .answer x ∈ k.heard) : P x := by
  have books := orderly.books
  obtain ⟨n, found⟩ := List.mem_iff_getElem?.mp mem
  have due := orderly.answering.fair.due n k found _ heard
  simp only [dues, List.mem_append, List.mem_map, Prod.mk.injEq, reduceCtorEq, and_false, exists_false, or_false] at due
  rcases due with ⟨s, served, -, reply⟩ | ⟨l, refused, -, refusal⟩
  · obtain ⟨es, later, replies, session, -, answers⟩ := orderly.ran
    have mem : .answer x ∈ (c.run es).1 := by
      rw [answers, ← reply]
      exact List.mem_append_left _ (List.mem_map_of_mem served)
    refine Session.allowed_run allows (fun down => closed (Bool.eq_false_iff.mpr fun serves => ?_)) coherent mem
    rw [← session] at down
    exact down (books.serving serves).1
  · have stopped : m.turn.isServing = false := by
      refine Bool.eq_false_iff.mpr fun serves => ?_
      obtain ⟨undrained, nobody⟩ := books.unsealed (books.serving serves).2.1
      rw [undrained, nobody] at refused
      rcases refused with mem | mem <;> cases mem
    unfold Letter.refusal at refusal
    split at refusal <;> cases refusal <;> exact closed stopped

end

end Mailbox

/-- **Statuses come in order, and nothing goes astray.** What a cell shows are the stages up to some point,
uninitialized, initializing, and the versions of its value from 0 on, then the final status if it has become final, and
at last that it is closed. The version moves on by one where an update commits, and nowhere else. Between requests a
cell that serves shows the state it is in; if it is ready its store is open, and if it is final it holds a terminal
error whose cause has no cause itself. The worker takes none of the branches that are there for its own mistakes, and
nobody is told of an error but that of a transform, a terminal one, or that the cell is closed. A producer of the path
is taken not to panic. -/
theorem statuses_come_in_order {s : Setup V} {location : Location} {hasRuntime : Bool} {b b' : Bench F} {w : Worker V}
    (built : build s (some location) hasRuntime b = (.ok w, b')) (calm : ∀ m, location ≠ .produced (.panics m)) :
    (∀ es : List (Event F V),
      let c := ((Session.mk w b').run es).2
      c.InOrder ∧
        ∀ e, (∀ r next, e = .request r → c.Commits r next → (c.happen e).2.worker.state = .ready next (c.version + 1)) ∧
          ((∀ r next, e = .request r → ¬ c.Commits r next) →
            ∀ v n, (c.happen e).2.worker.state = .ready v n → n = c.version)) ∧
      ∀ as : List (Act F V),
        let m := (Mailbox.new (Session.mk w b')).run as
        m.session.InOrder ∧
          (∀ k ∈ m.callers, ∀ e, .answer (.error e) ∈ k.heard → e.code ∈ Error.Code.told) ∧
          ∀ f ∈ m.session.worker.feeds, ∀ e, .error e ∈ f.sent → e.code ∈ Error.Code.told := by
  obtain ⟨steady, orderly⟩ := steady_of_build built calm
  have coherent := coherent_of_build built
  have ordered (es : List (Event F V)) : ((Session.mk w b').run es).2.InOrder :=
    (Session.coherent_run es coherent).inOrder (Session.tells_run es (tells_of_build built)) (steady.run es).sound
  refine ⟨fun es => ⟨ordered es, fun e => ⟨?_, fun others v n => Session.version_of_others others⟩⟩, fun as => ?_⟩
  · rintro r next rfl
    exact Session.version_of_commits
  · have now := Mailbox.orderly_run steady as orderly
    obtain ⟨es, -, -, session, -⟩ := now.ran
    refine ⟨session ▸ ordered es, fun k mem e heard => ?_, fun f mem e sent => ?_⟩
    · exact now.allowed Session.allows_fit coherent (fun _ => Session.fit_closed) mem heard e rfl
    · exact Mailbox.sends_run Session.allows_fit steady coherent as orderly (fun _ => Session.fit_closed)
        (sends_of_build built) f mem _ sent e rfl

/-- A switch is flipped, loses its next commit, and is closed. -/
theorem a_switch_shows_its_stages :
    let b : Bench Memory := { disk := { namespaceId := "0" }, registry := {}, journal := {} }
    let flip : Event Memory Bool := .request (.update (fun v => .returned !v) true)
    let es : List (Event Memory Bool) := [flip, .outside (·.arm .rename), flip, .request .close]
    ∃ w b', build switch (some (.path ⟨"/d/v"⟩)) true b = (.ok w, b') ∧ ((Session.mk w b').run es).2.InOrder ∧
      ((Session.mk w b').run es).2.worker.shown.reverse =
        [.uninitialized, .initializing, .ready 0, .ready 1, .final .ioFailure, .closed] := by
  intro b flip es
  have checked : ((newCell switch ⟨"/d/v"⟩ b).any fun c => decide ((c.run es).2.worker.shown.reverse =
      [.uninitialized, .initializing, .ready 0, .ready 1, .final .ioFailure, .closed])) = true := by decide +kernel
  rcases found : newCell switch ⟨"/d/v"⟩ b with _ | ⟨w, b'⟩ <;> rw [found] at checked
  · cases checked
  · have built := build_of_newCell found
    exact ⟨w, b', built, ((statuses_come_in_order built nofun).1 es).1, of_decide_eq_true checked⟩

end DurableValue.Cell
