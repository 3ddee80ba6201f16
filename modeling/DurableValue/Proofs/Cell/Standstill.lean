/-
  DurableValue.Proofs.Cell.Standstill — no cell comes to a standstill, but over the producer of its path.

  Whatever the caller's code does, fail or panic, a worker goes on: it shows the state it is in, everyone who waits
  gets an answer, and that the cell is closed is heard of a cell alone that shows it (`Active`). The one thing that
  stops a worker is a producer of the path that panics. Then the status is that of an initialization for ever, and
  from the request on that called the producer everyone is told that the cell is closed (`Stalled`).

  Proved:
  - `Coherent.active`, `Coherent.stalled`: which of the two a cell is, by the life of its worker.
  - `stalls_only_over_its_path`: the same of every run of a mailbox, with who is told what.
  - `a_panicking_producer_leaves_a_cell_initializing`: a run that ends so.
-/
import DurableValue.Proofs.Cell.Statuses

namespace DurableValue.Cell

open Disk (FileSystem Memory)

variable {F H V : Type} [FileSystem F H]

namespace Session

def Gets (x : Except Error V) (r : Request V) (c : Session F V) : Prop :=
  match r with
  | .subscribe i => ∃ f, c.worker.feeds[i]? = some f ∧
      ∃ f', (c.happen (.request r)).2.worker.feeds[i]? = some f' ∧ f'.sent = f.sent ++ [x]
  | _ => (c.happen (.request r)).1 = [.answer x]

structure Active (c : Session F V) : Prop where
  status : c.worker.status = if c.worker.life = .closed then .closed else c.worker.state.status
  settled : c.worker.status ≠ .initializing
  /-- Whoever waits is given one thing; where that is the error of a closed cell, this is what the cell shows. A request
  over which the worker breaks is left out. -/
  answers : ∀ r, r.needsValue c.worker = true → (c.happen (.request r)).2.worker.life ≠ .broken →
    ∃ x, c.Gets x r ∧ (c.worker.status = .closed → x = .error .closed) ∧
      ∀ e, x = .error e → e.code = .closed → c.worker.status = .closed
  closes : (c.happen (.request .close)).1 = [.acknowledged] ∧
    (c.happen (.request .close)).2.worker.status = .closed

structure Stalled (c : Session F V) : Prop where
  status : c.worker.status = .initializing
  refuses : ∀ r, r.needsValue c.worker = true → c.IsForsaken r
  forGood : ∀ es : List (Event F V), (c.run es).2.worker.status = .initializing

variable {c c' : Session F V}

/-! ## Workers that nobody asks -/

/-- A worker that nobody has asked for the value keeps what it has to try, unless it is closed. -/
theorem fixed_of_idle {es : List (Event F V)} (idle : c.Idle es) :
    (c.run es).2.worker.fixed = c.worker.fixed ∨ (c.run es).2.worker.life = .closed := by
  induction es generalizing c with
  | nil => exact Or.inl rfl
  | cons e es ih =>
    have later : (c.happen e).2.Idle es := by
      rintro xs r ys rfl
      exact idle (e :: xs) r ys rfl
    have step : (c.happen e).2.worker.fixed = c.worker.fixed ∨ (c.happen e).2.worker.life = .closed := by
      cases e with
      | request r =>
        rcases gist_of_not_takes (c := c) (idle [] r es rfl) with gist | ⟨-, same⟩
        · exact Or.inl (fixed_of_gist gist)
        · rw [same]
          exact Or.inr (life_shutDown c)
      | receivers f => exact Or.inl rfl
      | outside f => exact Or.inl rfl
    rw [run_cons]
    rcases step with same | closed
    · rw [← same]
      exact ih later
    · exact Or.inr ((life_of_down (by rw [closed]; exact nofun) es).trans closed)

/-- The first request for the value breaks a worker that has a producer to try which panics. -/
theorem broken_of_takes {r : Request V} {m : String} (takes : c.Takes r) (listed : c.Listed)
    (fresh : c.worker.state = .uninitialized) (panics : c.worker.target = .deferred (.panics m)) :
    (c.happen (.request r)).2.worker.life = .broken := by
  have broke : c.ensureReady.1 = .error .broken := by
    simp [ensureReady, fresh, resolve, onWorker, Worker.reveal, panics]
  obtain ⟨-, -, life⟩ := forsaken_first takes listed (Prod.ext broke rfl)
  exact life

/-! ## Answers -/

theorem gets_of_hears {x : Except Error V} {r : Request V} (hears : c.Hears x r) : c.Gets x r := by
  cases r with
  | subscribe i =>
    obtain ⟨f, before, after⟩ := hears
    exact ⟨f, before, _, after, rfl⟩
  | _ => exact hears

/-- Whoever sees a value is given it, or what a transform of it or its commit came to. -/
theorem gets_of_sees {v : V} {r : Request V} (coherent : (c.happen (.request r)).2.Coherent)
    (takes : c.Takes r) (sees : c.Sees v r) : ∃ x, c.Gets x r ∧ ∀ e, x = .error e → e.code ≠ .closed := by
  cases r with
  | update transform isAwaited =>
    rcases sees with answer | ⟨t, final, answer⟩
    · refine ⟨_, answer, fun e failed => ?_⟩
      cases result : (transform v).result with
      | ok next =>
        rw [result] at failed
        cases failed
      | error reason =>
        rw [result] at failed
        cases failed
        exact nofun
    · refine ⟨_, answer, fun e failed => ?_⟩
      cases failed
      obtain ⟨cause, rfl, -⟩ := coherent.final t final
      exact nofun
  | read isAwaited => exact ⟨_, sees, nofun⟩
  | subscribe i =>
    obtain ⟨f, before, f', after, sent⟩ := sees
    exact ⟨_, ⟨f, before, f', after, sent⟩, nofun⟩
  | close => cases takes.2

/-- A worker that serves gives everyone something, unless it breaks over it; never that the cell is closed. -/
theorem gets_of_takes {r : Request V} (coherent : c.Coherent) (listed : c.Listed) (takes : c.Takes r)
    (goesOn : (c.happen (.request r)).2.worker.life ≠ .broken) :
    ∃ x, c.Gets x r ∧ ∀ e, x = .error e → e.code ≠ .closed := by
  rcases ensured : c.ensureReady with ⟨(t | _) | ⟨⟩, c₁⟩
  · obtain ⟨hears, -⟩ := hears_first takes listed ensured
    refine ⟨_, gets_of_hears hears, fun e failed => ?_⟩
    cases failed
    obtain ⟨cause, rfl, -⟩ := (coherent_ensured takes.1 ensured coherent).final t (final_of_ensured ensured)
    exact nofun
  · exact absurd (forsaken_first takes listed ensured).2.2 goesOn
  · obtain ⟨-, v, n, state⟩ := ready_of_ensured ensured
    exact gets_of_sees (coherent_happen _ coherent) takes (sees_first takes listed ensured state).1

theorem Coherent.active {before : List Journal.Line} (coherent : c.Coherent) (listed : c.Listed)
    (tells : Tells before c.gist) (sound : c.worker.life ≠ .broken) : c.Active := by
  have status : c.worker.status = if c.worker.life = .closed then .closed else c.worker.state.status :=
    (coherent.inOrder tells sound).status
  have closed (shows : c.worker.status = .closed) : c.worker.life = .closed := by
    cases life : c.worker.life with
    | closed => rfl
    | broken => exact absurd life sound
    | serving =>
      rw [status, life] at shows
      cases state : c.worker.state <;> rw [state] at shows <;> cases shows
  refine ⟨status, ?_, fun r needs goesOn => ?_, ?_⟩
  · rw [status]
    split
    · exact nofun
    · cases c.worker.state <;> exact nofun
  · cases life : c.worker.life with
    | serving =>
      obtain ⟨x, gets, other⟩ := gets_of_takes coherent listed ⟨life, needs⟩ goesOn
      refine ⟨x, gets, fun shows => ?_, fun e failed code => absurd code (other e failed)⟩
      cases life.symm.trans (closed shows)
    | closed =>
      refine ⟨_, gets_of_hears (hears_closed life needs), fun _ => rfl, fun _ _ _ => ?_⟩
      rw [status, if_pos life]
    | broken => exact absurd life sound
  · cases life : c.worker.life with
    | serving =>
      simp only [happen, serve, life, handle]
      exact ⟨trivial, rfl⟩
    | closed =>
      simp only [happen, serve, life, refuse]
      exact ⟨trivial, by rw [status, if_pos life]⟩
    | broken => exact absurd life sound

theorem Coherent.status_of_broken (coherent : c.Coherent) (broken : c.worker.life = .broken) :
    c.worker.status = .initializing := by
  obtain ⟨m, reached, shown⟩ := coherent.shown
  have fresh := (coherent.broken broken).1
  rw [Reached, fresh, broken] at reached
  rw [story, fresh, broken, show m = 2 from reached] at shown
  have same : c.worker.shown = [.initializing, .uninitialized] := List.reverse_injective shown
  rw [Worker.status, same]
  rfl

theorem Coherent.stalled (coherent : c.Coherent) (broken : c.worker.life = .broken) : c.Stalled where
  status := coherent.status_of_broken broken
  refuses := fun r needs => by
    cases r with
    | update transform isAwaited =>
      cases needs
      simp [IsForsaken, happen, serve, broken, forsake, refuse]
    | read isAwaited =>
      cases needs
      simp [IsForsaken, happen, serve, broken, forsake, refuse]
    | subscribe i =>
      cases found : c.worker.feeds[i]? with
      | none => simp [Request.needsValue, Worker.hasListener, found] at needs
      | some f =>
        refine ⟨f, found, ?_⟩
        simp [happen, serve, broken, forsake, letGo, onWorker, Worker.onFeed, found, Feed.finish]
    | close => cases needs
  forGood := fun es => by
    refine (coherent_run es coherent).status_of_broken ((life_of_down (fun serves => ?_) es).trans broken)
    cases broken.symm.trans serves

/-- Whoever a worker breaks over is told that the cell is closed, or sees its subscription end. -/
theorem Coherent.forsaken (coherent : c.Coherent) (listed : c.Listed) {r : Request V} (takes : c.Takes r)
    (broken : (c.happen (.request r)).2.worker.life = .broken) : c.IsForsaken r := by
  rcases ensured : c.ensureReady with ⟨(t | _) | ⟨⟩, c₁⟩
  · cases (hears_first takes listed ensured).2.symm.trans ((coherent_happen _ coherent).broken broken).1
  · exact (forsaken_first takes listed ensured).1
  · -- A cell with a value has its store open, and nothing is left to break it.
    obtain ⟨life, v, n, state⟩ := ready_of_ensured ensured
    obtain ⟨e, target⟩ := (coherent_ensured takes.1 ensured coherent).stored (life.trans takes.1) v n state
    have sound : (∀ m, c₁.worker.target ≠ .deferred (.panics m)) ∧ c₁.worker.life ≠ .broken := by
      rw [target, life, takes.1]
      exact ⟨nofun, nofun⟩
    rw [(sees_first takes listed ensured state).2] at broken
    have goes : (c₁.run [.request r]).2.worker.life ≠ .broken := (sound_run sound).2
    exact absurd broken goes

def Unclosed (x : Except Error V) : Prop := ∀ e, x = .error e → e.code ≠ .closed

theorem allows_unclosed : Allows (Unclosed (V := V)) where
  value _ := nofun
  rejected reason := by
    rintro e ⟨⟩
    exact nofun
  final cause := by
    rintro e ⟨⟩
    exact nofun

end Session

/-! ## Who hears that a cell is closed -/

namespace Mailbox

variable {c : Session F V} {m : Mailbox F V}

/-- Nobody hears that a cell is closed from a worker that has not shut down. -/
theorem Orderly.stopped_of_heard (orderly : m.Orderly c) (coherent : c.Coherent) {k : Caller V} (mem : k ∈ m.callers)
    {e : Error} (heard : .answer (.error e) ∈ k.heard) (code : e.code = .closed) : m.turn.isServing = false := by
  refine Bool.eq_false_iff.mpr fun serves => ?_
  have told : Session.Unclosed (.error e : Except Error V) :=
    orderly.allowed Session.allows_unclosed coherent (fun stopped => by cases serves.symm.trans stopped) mem heard
  exact told e rfl code

/-- No subscription is sent that a cell is closed by a worker that has not shut down. -/
theorem stopped_of_sent (steady : Steady c) (coherent : c.Coherent) (orderly : m.Orderly c)
    (sends : ∀ {P : Except Error V → Prop}, m.session.SendsOnly P) {as : List (Act F V)} {f : Feed V}
    (mem : f ∈ (m.run as).session.worker.feeds) {e : Error} (sent : .error e ∈ f.sent) (code : e.code = .closed) :
    (m.run as).turn.isServing = false := by
  refine Bool.eq_false_iff.mpr fun serves => ?_
  have told : Session.Unclosed (.error e : Except Error V) :=
    sends_run Session.allows_unclosed steady coherent as orderly (fun stopped => by cases serves.symm.trans stopped)
      sends f mem _ sent
  exact told e rfl code

end Mailbox

/-! ## What breaks a worker -/

section

variable {s : Setup V} {location : Location} {hasRuntime : Bool} {b b' : Bench F} {w : Worker V}

/-- A cell that was built serves, has not tried for its value, and lists nobody. -/
theorem fresh_of_build (built : build s (some location) hasRuntime b = (.ok w, b')) :
    w.life = .serving ∧ w.state = .uninitialized ∧ (Session.mk w b').Listed := by
  obtain ⟨target, label, registry, fields, rfl, rfl, -⟩ := build_ok built
  exact ⟨rfl, rfl, Or.inl rfl⟩

/-- A worker breaks only if its path is to be made by a producer that panics, and somebody has asked for the value. -/
theorem asked_of_broken (built : build s (some location) hasRuntime b = (.ok w, b')) {es : List (Event F V)}
    (broken : ((Session.mk w b').run es).2.worker.life = .broken) :
    (∃ m, location = .produced (.panics m)) ∧
      ∃ xs r ys, es = xs ++ .request r :: ys ∧ ((Session.mk w b').run xs).2.Takes r := by
  constructor
  · refine Classical.byContradiction fun calm => ?_
    obtain ⟨steady, -⟩ := steady_of_build built fun m panics => calm ⟨m, panics⟩
    exact (steady.run es).sound broken
  · rcases Session.idle_or_first es (Session.mk w b') with idle | ⟨xs, r, ys, split, -, takes⟩
    · rcases Session.fixed_of_idle idle with same | closed
      · have life := (Worker.of_fixed same).2.2.2.trans (fresh_of_build built).1
        cases broken.symm.trans life
      · cases broken.symm.trans closed
    · exact ⟨xs, r, ys, split, takes⟩

/-- Whoever asks first finds the producer that was there when the cell was built, and the worker stays broken. -/
theorem broken_of_asked {m : String} (built : build s (some (.produced (.panics m))) hasRuntime b = (.ok w, b'))
    {es xs ys : List (Event F V)} {r : Request V} (split : es = xs ++ .request r :: ys)
    (takes : ((Session.mk w b').run xs).2.Takes r) : ((Session.mk w b').run es).2.worker.life = .broken := by
  obtain ⟨-, fresh, listed⟩ := fresh_of_build built
  have panics : w.target = .deferred (.panics m) := by
    obtain ⟨target, label, registry, fields, rfl, rfl, place⟩ := build_ok built
    exact place.1
  rcases Session.idle_or_first es (Session.mk w b') with idle | ⟨xs', r', ys', split', idle, takes'⟩
  · exact absurd takes (idle xs r ys split)
  · have target : ((Session.mk w b').run xs').2.worker.target = .deferred (.panics m) := by
      rcases Session.fixed_of_idle idle with same | closed
      · exact (Worker.of_fixed same).2.1.trans panics
      · cases takes'.1.symm.trans closed
    have broken := Session.broken_of_takes takes' (Session.listed_run xs' listed)
      (Session.fresh_run fresh idle).1 target
    rw [split', Session.run_append, Session.run_cons]
    exact (Session.life_of_down (by rw [broken]; exact nofun) ys').trans broken

end

/-- **A cell comes to a standstill only over a panic of its path's producer.** Whatever the caller's other code does,
the worker goes on after every request: it shows the state it is in and never an initialization, whoever waits for
something gets it, and the error of a closed cell is given if the cell shows that it is closed, and only then. A worker
breaks if and only if the path was to be made by a producer that panics and somebody has asked for the value while the
cell served. The request that called the producer, and everyone after it, is told that the cell is closed or sees a
subscription end, while the status is that of an initialization for ever. In a cell whose producer does not panic nobody
has heard that it is closed before it shows it, however requests queue up and callers and handles come and go. -/
theorem stalls_only_over_its_path {s : Setup V} {location : Location} {hasRuntime : Bool} {b b' : Bench F}
    {w : Worker V} (built : build s (some location) hasRuntime b = (.ok w, b')) :
    let c₀ := Session.mk w b'
    (∀ es : List (Event F V),
      let c := (c₀.run es).2
      (c.worker.life ≠ .broken → c.Active) ∧ (c.worker.life = .broken → c.Stalled) ∧
        (c.worker.life = .broken ↔ (∃ m, location = .produced (.panics m)) ∧
          ∃ xs r ys, es = xs ++ .request r :: ys ∧ (c₀.run xs).2.Takes r) ∧
        ∀ r, c.Takes r → (c.happen (.request r)).2.worker.life = .broken → c.IsForsaken r) ∧
    ((∀ m, location ≠ .produced (.panics m)) → ∀ as : List (Act F V),
      let m := (Mailbox.new c₀).run as
      m.session.Active ∧
        (∀ k ∈ m.callers, ∀ e, .answer (.error e) ∈ k.heard → e.code = .closed →
          m.session.worker.status = .closed) ∧
        ∀ f ∈ m.session.worker.feeds, ∀ e, .error e ∈ f.sent → e.code = .closed →
          m.session.worker.status = .closed) := by
  intro c₀
  have coherent (es : List (Event F V)) : (c₀.run es).2.Coherent := Session.coherent_run es (coherent_of_build built)
  have listed (es : List (Event F V)) : (c₀.run es).2.Listed := Session.listed_run es (fresh_of_build built).2.2
  have active (es : List (Event F V)) : (c₀.run es).2.worker.life ≠ .broken → (c₀.run es).2.Active :=
    (coherent es).active (listed es) (Session.tells_run es (tells_of_build built))
  refine ⟨fun es => ⟨active es, (coherent es).stalled, ⟨asked_of_broken built, ?_⟩, fun r =>
    (coherent es).forsaken (listed es)⟩, fun calm as => ?_⟩
  · rintro ⟨⟨m, rfl⟩, xs, r, ys, split, takes⟩
    exact broken_of_asked built split takes
  · -- a mailbox whose producer does not panic: its session is that of a run
    obtain ⟨steady, orderly⟩ := steady_of_build built calm
    intro m
    have now : m.Orderly c₀ := Mailbox.orderly_run steady as orderly
    have going : m.session.Active := by
      obtain ⟨es, -, -, session, -⟩ := now.ran
      rw [session]
      exact active es (steady.run es).sound
    have shows (stopped : m.turn.isServing = false) : m.session.worker.status = .closed := by
      rw [going.status, if_pos (now.books.shut stopped)]
    refine ⟨going, fun k mem e heard code => ?_, fun f mem e sent code => ?_⟩
    · exact shows (now.stopped_of_heard (coherent []) mem heard code)
    · exact shows (Mailbox.stopped_of_sent steady (coherent []) orderly (sends_of_build built) mem sent code)

/-- A switch goes on after a transform that panics. -/
theorem a_switch_survives_a_panic :
    let b : Bench Memory := { disk := { namespaceId := "0" }, registry := {}, journal := {} }
    let panics : Event Memory Bool := .request (.update (fun _ => .panicked (some "kaput")) true)
    ∃ w b', build switch (some (.path ⟨"/d/v"⟩)) true b = (.ok w, b') ∧ ((Session.mk w b').run [panics]).2.Active ∧
      ((Session.mk w b').run [panics]).2.worker.status = .ready 0 := by
  intro b panics
  have checked : ((newCell switch ⟨"/d/v"⟩ b).any fun c => decide (
      (c.run [panics]).2.worker.life = .serving ∧ (c.run [panics]).2.worker.status = .ready 0)) = true := by
    decide +kernel
  rcases found : newCell switch ⟨"/d/v"⟩ b with _ | ⟨w, b'⟩ <;> rw [found] at checked
  · cases checked
  · have built := build_of_newCell found
    obtain ⟨life, status⟩ := of_decide_eq_true checked
    refine ⟨w, b', built, ((stalls_only_over_its_path built).1 [panics]).1 ?_, status⟩
    rw [life]
    exact nofun

/-- A producer that panics leaves a cell that shows an initialization for ever, and tells that it is closed. -/
theorem a_panicking_producer_leaves_a_cell_initializing :
    let b : Bench Memory := { disk := { namespaceId := "0" }, registry := {}, journal := {} }
    let asked : List (Event Memory Bool) := [.request (.read true), .request (.read true)]
    ∃ w b', build switch (some (.produced (.panics "kaput"))) true b = (.ok w, b') ∧
      ((Session.mk w b').run asked).1 = [.answer (.error .closed), .answer (.error .closed)] ∧
      ((Session.mk w b').run asked).2.worker.status = .initializing :=
  ⟨_, _, rfl, rfl, rfl⟩

end DurableValue.Cell
