/-
  DurableValue.Proofs.Cell.Steps — what a session does when it serves a request, branch by branch.

  Seeing to it that there is a value ends in one of six ways (`Opened`), and a transform of the value in one of five
  (`Updated`); a request comes down to these (`Served`). What a run keeps is proved for each of these ways, and the
  operations are not opened again.

  The *gist* of a session is the session without its subscriptions, without the counts of anything but commits, and
  with no lines in the journal but those of the final state. Noting, and everything done for subscriptions, leaves the
  gist alone; a request that finds a cell final, or wants no value, does no more than that.

  Proved:
  - `performed`, `resolving`, `opened`, `updated`, `served`: an operation goes in one of the ways that are listed for
    it.
  - `happen_keeps`: what all of these ways keep, every event keeps.
  - `hears_final`, `hears_closed`: what a request hears from a final cell and from a closed one.
-/
import DurableValue.Proofs.Cell.Fold
import DurableValue.Proofs.Cell.Work

namespace DurableValue.Cell

open Disk (FileSystem)

variable {F H V : Type} [FileSystem F H]

theorem openExclusive_error {disk : F} {r r' : Store.Registry} {p : Path} {o : Store.Options} {e : Store.Error}
    (h : Store.openExclusive disk r p o = (.error e, r')) : r' = r := by
  unfold Store.openExclusive at h
  split at h
  · cases h
    rfl
  · split at h <;> cases h
    rename_i acquired
    unfold Store.Registry.acquire at acquired
    split at acquired <;> cases acquired
    rfl

/-- The errors that may make a cell final: they are of the cell's own making and have no cause themselves. -/
def Error.IsCause (e : Error) : Prop := e.isTerminal = false ∧ e.cause = none

theorem Error.isCause_ofStore (e : Store.Error) : (Error.ofStore e).IsCause := by
  refine ⟨?_, rfl⟩
  simp only [isTerminal, ofStore, code]
  split <;> rfl

theorem Error.OfWork.isCause {e : Error} (h : e.OfWork) : e.IsCause := by
  cases h with
  | store => exact Error.isCause_ofStore _
  | codec => exact ⟨rfl, rfl⟩
  | corruption => exact ⟨rfl, rfl⟩
  | collaborator => exact ⟨rfl, rfl⟩

/-- Work never fails with an error that blames the configuration. -/
theorem Error.OfWork.code_ne {e : Error} (h : e.OfWork) : e.code ≠ .configInvalid := by
  cases h with
  | store plain => simp [ofStore, code, show _ = false from plain]
  | codec => exact nofun
  | corruption => exact nofun
  | collaborator => exact nofun

/-- What only the first request and a closing change of a worker. -/
def Worker.fixed (w : Worker V) : Setup V × Target × String × Life := (w.setup, w.target, w.label, w.life)

theorem Worker.of_fixed {w w' : Worker V} (h : w'.fixed = w.fixed) :
    w'.setup = w.setup ∧ w'.target = w.target ∧ w'.label = w.label ∧ w'.life = w.life := by
  simpa [fixed] using h

namespace Session

/-! ## Work -/

def job (c : Session F V) : Job F := ⟨c.bench, c.worker.tally⟩

/-- Work within a budget leaves the worker alone but for its tally. -/
theorem performed {α : Type} {store : Store.Atomic} {budget : List Use} {P : α → Prop} {t : Task F α}
    {c c' : Session F V} {a : Except Stop α} (h : c.perform t = (a, c')) (within : Task.Within store budget P t) :
    c'.worker = { c.worker with tally := c'.worker.tally } ∧
      ∃ us, (∀ u, us.count u ≤ budget.count u) ∧ Done store us c.job c'.job ∧ Task.Proper P a := by
  obtain ⟨ran, worker, -⟩ := of_perform h
  obtain ⟨us, small, done, proper⟩ := within c.job
  have ran : t.run c.job = (a, c'.job) := ran
  rw [ran] at done proper
  exact ⟨worker, us, small, done, proper⟩

theorem fixed_of_perform {α : Type} {t : Task F α} {c c' : Session F V} {a : Except Stop α}
    (h : c.perform t = (a, c')) : c'.worker.fixed = c.worker.fixed := by
  obtain ⟨-, worker, -⟩ := of_perform h
  rw [worker]
  rfl

/-- Whatever ends work early may make a cell final. -/
theorem isCause_stopError {α : Type} {P : α → Prop} {stop : Stop}
    (proper : Task.Proper P (.error stop)) (c : Session F V) (work : String) : (c.stopError work stop).IsCause := by
  cases stop with
  | failed e => exact Error.OfWork.isCause proper
  | broke m => exact ⟨rfl, rfl⟩

/-- Whatever ends work early, it does not blame the configuration. -/
theorem code_stopError {α : Type} {P : α → Prop} {stop : Stop}
    (proper : Task.Proper P (.error stop)) (c : Session F V) (work : String) :
    (c.stopError work stop).code ≠ .configInvalid := by
  cases stop with
  | failed e => exact Error.OfWork.code_ne proper
  | broke m => exact nofun

/-! ## Branches -/

inductive Resolving (c : Session F V) : Resolved → Session F V → Prop where
  | opened {e : Store.Exclusive} (target : c.worker.target = .opened e) : Resolving c (.found e.store) c
  | unavailable (target : c.worker.target = .unavailable) : Resolving c (.refused .closed) c
  | panicked {m : String} (target : c.worker.target = .deferred (.panics m)) :
    Resolving c .broken
      ((c.call (.produce (.panics m))).onWorker fun w => { w with target := .unavailable })
  | claimed {p : Path} {e : Store.Exclusive} {r : Store.Registry} (target : c.worker.target = .deferred (.gives p))
    (exclusive : Store.openExclusive c.bench.disk c.bench.registry p c.worker.setup.config.storeOptions = (.ok e, r)) :
    Resolving c (.found e.store)
      { worker := { c.worker with label := p.text, target := .opened e }
        bench := { c.bench.record (.produce (.gives p)) with registry := r } }
  | taken {p : Path} {e : Store.Error} (target : c.worker.target = .deferred (.gives p))
    (exclusive : Store.openExclusive c.bench.disk c.bench.registry p c.worker.setup.config.storeOptions =
      (.error e, c.bench.registry)) :
    Resolving c (.refused (.ofStore e))
      { worker := { c.worker with label := p.text, target := .unavailable }
        bench := c.bench.record (.produce (.gives p)) }

theorem resolving (c : Session F V) : Resolving c c.resolve.1 c.resolve.2 := by
  unfold resolve
  split
  · exact .opened ‹_›
  · exact .unavailable ‹_›
  · exact .panicked ‹_›
  · rename_i p target
    rcases exclusive : Store.openExclusive c.bench.disk c.bench.registry p c.worker.setup.config.storeOptions with
      ⟨e | e, r⟩
    · cases openExclusive_error exclusive
      have := Resolving.taken target exclusive
      simpa only [Bench.record, exclusive] using this
    · have := Resolving.claimed target exclusive
      simpa only [Bench.record, exclusive] using this

inductive Opened (c : Session F V) : Except Halt Unit → Session F V → Prop where
  | ready {v : V} {n : Nat} (state : c.worker.state = .ready v n) : Opened c (.ok ()) c
  | final {t : Error} (state : c.worker.state = .final t) : Opened c (.error (.final t)) c
  | broke {c₁ : Session F V} (fresh : c.worker.state = .uninitialized)
    (resolved : Resolving (c.onWorker (·.reveal .initializing)) .broken c₁) :
    Opened c (.error .broken) (c₁.onWorker fun w => { w with life := .broken })
  | refused {c₁ : Session F V} {cause : Error} (fresh : c.worker.state = .uninitialized)
    (resolved : Resolving (c.onWorker (·.reveal .initializing)) (.refused cause) c₁) :
    Opened c (.error (.final (.final cause))) (c₁.enterFinal cause).2
  | failed {c₁ c₂ : Session F V} {store : Store.Atomic} {stop : Stop} (fresh : c.worker.state = .uninitialized)
    (resolved : Resolving (c.onWorker (·.reveal .initializing)) (.found store) c₁)
    (performed : c₁.perform (Task.firstValue c₁.worker.setup store c₁.worker.label) = (.error stop, c₂)) :
    Opened c (.error (.final (.final (c₂.stopError "initialization" stop))))
      (c₂.enterFinal (c₂.stopError "initialization" stop)).2
  | began {c₁ c₂ : Session F V} {store : Store.Atomic} {v : V} (fresh : c.worker.state = .uninitialized)
    (resolved : Resolving (c.onWorker (·.reveal .initializing)) (.found store) c₁)
    (performed : c₁.perform (Task.firstValue c₁.worker.setup store c₁.worker.label) = (.ok v, c₂)) :
    Opened c (.ok ()) (c₂.onWorker (·.enter (.ready v 0)))

theorem opened (c : Session F V) : Opened c c.ensureReady.1 c.ensureReady.2 := by
  have resolved := resolving (c.onWorker (·.reveal .initializing))
  unfold ensureReady
  split
  · exact .ready ‹_›
  · exact .final ‹_›
  · split <;> rename_i resolves <;> rw [resolves] at resolved
    · exact .broke ‹_› resolved
    · exact .refused ‹_› resolved
    · split
      · exact .began ‹_› resolved ‹_›
      · exact .failed ‹_› resolved ‹_›

inductive Updated (c : Session F V) (transform : V → Outcome V) (v : V) (n : Nat) :
    Except Error V → Session F V → Prop where
  | rejected {reason : String} (result : (transform v).result = .error reason) :
    Updated c transform v n (.error (.transformFailed reason))
      (((c.call .transform).onWorker (·.count (·.recordTransformFailure))).note .warn .transformFailed
        [("reason", (Error.transformFailed reason).message)])
  | unchanged {next : V} (result : (transform v).result = .ok next) (same : c.worker.setup.same next v = true) :
    Updated c transform v n (.ok next) ((c.call .transform).onWorker (·.count (·.recordUnchanged)))
  | committed {next : V} {e : Store.Exclusive} {size : Nat} {c₁ : Session F V}
    (result : (transform v).result = .ok next) (changed : c.worker.setup.same next v = false)
    (target : c.worker.target = .opened e)
    (performed : (c.call .transform).perform (Task.writeValue c.worker.setup e.store next) = (.ok size, c₁)) :
    Updated c transform v n (.ok next)
      (((c₁.note .info .commit [("version", toString (n + 1)), ("bytes", toString size)]).onWorker
        (·.enter (.ready next (n + 1)))).publish next)
  | lost {next : V} {e : Store.Exclusive} {stop : Stop} {c₁ : Session F V}
    (result : (transform v).result = .ok next) (changed : c.worker.setup.same next v = false)
    (target : c.worker.target = .opened e)
    (performed : (c.call .transform).perform (Task.writeValue c.worker.setup e.store next) = (.error stop, c₁)) :
    Updated c transform v n (.error (.final (c₁.stopError "commit" stop)))
      (c₁.enterFinal (c₁.stopError "commit" stop)).2
  | homeless {next : V} (result : (transform v).result = .ok next) (changed : c.worker.setup.same next v = false)
    (target : ∀ e, c.worker.target ≠ .opened e) :
    Updated c transform v n (.error (.final (.internal "commit without a store")))
      ((c.call .transform).enterFinal (.internal "commit without a store")).2

theorem updated {c : Session F V} {v : V} {n : Nat} (state : c.worker.state = .ready v n)
    (transform : V → Outcome V) :
    Updated c transform v n (c.update transform).1 (c.update transform).2 := by
  simp only [update, state]
  split
  · exact .rejected ‹_›
  · split
    · exact .unchanged ‹_› ‹_›
    · have changed := Bool.eq_false_iff.mpr ‹_›
      unfold commit
      split
      · split
        · exact .committed ‹_› changed ‹_› ‹_›
        · exact .lost ‹_› changed ‹_› ‹_›
      · exact .homeless ‹_› changed ‹_›

/-! ## The gist -/

def gist (c : Session F V) : Session F V where
  worker := { c.worker with
    feeds := [], attached := [], isHigh := false
    tally.counters := { commits := c.worker.tally.counters.commits
                        bytesWritten := c.worker.tally.counters.bytesWritten } }
  bench := { c.bench with journal := { least := c.bench.journal.least, noted := c.bench.journal.finals } }

theorem life_of_gist {c c' : Session F V} (h : c'.gist = c.gist) : c'.worker.life = c.worker.life :=
  congrArg (·.worker.life) h

theorem state_of_gist {c c' : Session F V} (h : c'.gist = c.gist) : c'.worker.state = c.worker.state :=
  congrArg (·.worker.state) h

variable (c : Session F V)

/-- What is done to the counts of other things than commits does not touch the gist. -/
theorem gist_count (f : Counters → Counters) (commits : ∀ k, (f k).commits = k.commits)
    (bytes : ∀ k, (f k).bytesWritten = k.bytesWritten) : (c.onWorker (·.count f)).gist = c.gist := by
  simp only [gist, onWorker, Worker.count, commits, bytes]

@[simp] theorem gist_recordTransformFailure : (c.onWorker (·.count (·.recordTransformFailure))).gist = c.gist :=
  gist_count c _ (fun _ => rfl) fun _ => rfl

@[simp] theorem gist_recordUnchanged : (c.onWorker (·.count (·.recordUnchanged))).gist = c.gist :=
  gist_count c _ (fun _ => rfl) fun _ => rfl

theorem gist_journal {j : Journal} (least : j.least = c.bench.journal.least)
    (finals : j.finals = c.bench.journal.finals) : ({ c with bench.journal := j } : Session F V).gist = c.gist := by
  simp only [gist, least, finals]

@[simp] theorem gist_note (severity : Journal.Severity) {e : Journal.Event} (other : e ≠ .cellFinal)
    (extra : List Journal.Field) : (c.note severity e extra).gist = c.gist := by
  refine gist_journal c ?_ (Journal.finals_note severity _ (Journal.Event.name_ne other))
  unfold Journal.note Journal.add
  split <;> rfl

@[simp] theorem gist_checkAttached : c.checkAttached.gist = c.gist := by
  have counted : (c.onWorker (·.count (·.setLive c.worker.attached.length))).gist = c.gist :=
    gist_count c _ (fun _ => rfl) fun _ => rfl
  simp only [checkAttached]
  split
  · exact counted
  · split
    · exact counted
    · rw [gist_note _ _ (by decide)]
      exact counted

@[simp] theorem gist_publish (v : V) : (c.publish v).gist = c.gist := by
  unfold publish
  rw [gist_checkAttached]
  simp only [onWorker, Worker.tell_eq]
  rfl

@[simp] theorem gist_attach (v : V) (i : Nat) : (c.attach v i).gist = c.gist := by
  unfold attach
  rw [gist_checkAttached]
  rfl

@[simp] theorem gist_turnAway (i : Nat) (e : Error) : (c.turnAway i e).gist = c.gist := rfl

@[simp] theorem gist_letGo (i : Nat) : (c.letGo i).gist = c.gist := rfl

@[simp] theorem gist_refuse (r : Request V) : (c.refuse r).2.gist = c.gist := by
  unfold refuse
  split <;> rfl

@[simp] theorem gist_forsake (r : Request V) : (c.forsake r).2.gist = c.gist := by
  unfold forsake
  split
  · rfl
  · exact gist_refuse c _

def finalLine (cause : Error) (c : Session F V) : Journal.Line where
  severity := .fatal
  event := Journal.Event.cellFinal.name
  fields := [("instance", c.worker.setup.marks.instanceId), ("path", c.worker.label), ("code", cause.code.name),
    ("reason", cause.display)]

theorem gist_enterFinal (cause : Error) :
    (c.enterFinal cause).2.gist =
      { worker := c.gist.worker.enter (.final (.final cause))
        bench := { c.gist.bench with journal.noted := c.finalLine cause :: c.bench.journal.finals } } := by
  let lines := c.bench.journal.note .fatal Journal.Event.cellFinal.name (c.finalLine cause).fields
  have finals : lines.finals = c.finalLine cause :: c.bench.journal.finals := Journal.finals_note_final _ _
  have least : lines.least = c.bench.journal.least := by
    simp only [lines, Journal.note, Journal.add]
    split <;> rfl
  have noted : (c.note .fatal .cellFinal [("code", cause.code.name), ("reason", cause.display)]) =
      { c with bench.journal := lines } := rfl
  simp only [enterFinal, noted, onWorker, Worker.tell_eq, Worker.dismiss_eq]
  unfold gist
  simp only [finals, least]
  rfl

/-- Closing gives up the place of the value and the path, and shows that it is done. -/
theorem gist_shutDown :
    c.shutDown.gist =
      { worker := { c.gist.worker with
          target := .unavailable, life := .closed, shown := .closed :: c.worker.shown }
        bench := { c.gist.bench with registry := c.releasePath.bench.registry } } := by
  unfold shutDown
  rw [gist_note _ _ (by decide)]
  simp only [onWorker, releasePath, Worker.dismiss_eq]
  cases c.worker.target <;> rfl

theorem life_shutDown : c.shutDown.worker.life = .closed := congrArg (·.worker.life) (gist_shutDown c)

theorem state_shutDown : c.shutDown.worker.state = c.worker.state := congrArg (·.worker.state) (gist_shutDown c)

/-! ## Requests -/

/-- What a request comes down to in a cell that serves, up to the gist. -/
inductive Served (c : Session F V) : Request V → Session F V → Prop where
  | idle {r : Request V} {c' : Session F V} (idle : r.needsValue c.worker = false) (gist : c'.gist = c.gist) :
    Served c r c'
  | closed : Served c .close c.shutDown
  | ensured {r : Request V} {c' : Session F V} (needs : r.needsValue c.worker = true)
    (gist : c'.gist = c.ensureReady.2.gist) : Served c r c'
  | updated {transform : V → Outcome V} {c₁ : Session F V} {v : V} {n : Nat} (ok : c.ensureReady = (.ok (), c₁))
    (life : c₁.worker.life = c.worker.life) (state : c₁.worker.state = .ready v n) :
    Served c (.update transform true) (c₁.update transform).2

/-- A cell that has seen to its value is ready, and serves as before. -/
theorem ready_of_ensured {c c' : Session F V} (h : c.ensureReady = (.ok (), c')) :
    c'.worker.life = c.worker.life ∧ ∃ v n, c'.worker.state = .ready v n := by
  cases state : c.worker.state with
  | ready v n =>
    rw [ensureReady_ready c state] at h
    cases h
    exact ⟨rfl, v, n, state⟩
  | final t => simp [ensureReady, state] at h
  | uninitialized =>
    obtain ⟨-, v, -, -, ready, -, life, -⟩ := ensureReady_ok state h
    exact ⟨life, v, 0, ready⟩

theorem final_of_ensured {c c' : Session F V} {t : Error} (h : c.ensureReady = (.error (.final t), c')) :
    c'.worker.state = .final t := by
  have ended := opened c
  rw [h] at ended
  cases ended with
  | final state => exact state
  | refused => rfl
  | failed => rfl

/-- A worker breaks only if the producer of its path panics. -/
theorem broken_of_ensured {c c' : Session F V} (h : c.ensureReady = (.error .broken, c')) :
    c'.worker.life = .broken ∧ ∃ m, c.worker.target = .deferred (.panics m) := by
  have ended := opened c
  rw [h] at ended
  cases ended with
  | broke _ resolved =>
    cases resolved with
    | panicked target => exact ⟨rfl, _, target⟩

theorem served (r : Request V) : Served c r (c.handle r).2 := by
  cases r with
  | update transform isAwaited =>
    cases isAwaited with
    | false =>
      refine .idle rfl ?_
      simp only [handle]
      rw [gist_note _ _ (by decide)]
      exact gist_count c _ (fun _ => rfl) fun _ => rfl
    | true =>
      rcases ensured : c.ensureReady with ⟨halt | ⟨⟩, c'⟩
      · exact .ensured rfl (by simp only [handle, ensured])
      · obtain ⟨life, v, n, state⟩ := ready_of_ensured ensured
        simp only [handle, ensured]
        exact .updated ensured life state
  | read isAwaited =>
    cases isAwaited with
    | false => exact .idle rfl rfl
    | true =>
      refine .ensured rfl ?_
      rcases ensured : c.ensureReady with ⟨halt | ⟨⟩, c'⟩ <;> simp only [handle, ensured]
  | subscribe i =>
    cases listener : c.worker.hasListener i with
    | false => exact .idle listener (by simp [handle, listener])
    | true =>
      refine .ensured listener ?_
      rcases ensured : c.ensureReady with ⟨(t | _) | ⟨⟩, c'⟩ <;> simp only [handle, listener, ensured, if_true]
      · exact gist_turnAway c' i t
      · exact gist_letGo c' i
      · split
        · exact gist_attach c' _ i
        · exact gist_letGo c' i
  | close => exact .closed

/-- What every way through a request keeps, an event keeps, unless it is a change to the disk by other hands. -/
theorem happen_keeps {P : Session F V → Prop} {e : Event F V} {c : Session F V}
    (respects : ∀ {c c'}, c'.gist = c.gist → P c → P c')
    (shut : ∀ {c}, c.worker.life = .serving → P c → P c.shutDown)
    (ensured : ∀ {c a c'}, c.worker.life = .serving → Opened c a c' → P c → P c')
    (updated : ∀ {c transform v n a c'}, c.worker.life = .serving → c.worker.state = .ready v n →
      Updated c transform v n a c' → P c → P c')
    (outside : ∀ {c f}, e = .outside f → P c → P { c with bench.disk := f c.bench.disk })
    (holds : P c) : P (c.happen e).2 := by
  cases e with
  | request r =>
    cases life : c.worker.life with
    | serving =>
      have ensures := ensured life (opened c) holds
      have way := served c r
      simp only [happen, serve, life]
      generalize (c.handle r).2 = c' at way ⊢
      cases way with
      | idle _ gist => exact respects gist holds
      | closed => exact shut life holds
      | ensured _ gist => exact respects gist ensures
      | updated ok same state =>
        rw [ok] at ensures
        exact updated (same.trans life) state (Session.updated state _) ensures
    | closed =>
      simp only [happen, serve, life]
      exact respects (gist_refuse c r) holds
    | broken =>
      simp only [happen, serve, life]
      exact respects (gist_forsake c r) holds
  | receivers f => exact respects (c := c) rfl holds
  | outside f => exact outside (c := c) rfl holds

/-! ## What stays fixed -/

section

variable {c} {c' : Session F V}

theorem fixed_of_gist (h : c'.gist = c.gist) : c'.worker.fixed = c.worker.fixed := congrArg (·.worker.fixed) h

theorem fixed_enterFinal (cause : Error) : (c.enterFinal cause).2.worker.fixed = c.worker.fixed :=
  congrArg (·.worker.fixed) (gist_enterFinal c cause)

/-- Something about a session that neither a call, nor work, nor a new state touches, nor the news of it. -/
structure Unmoved {γ : Type} (f : Session F V → γ) : Prop where
  gist : ∀ {c c' : Session F V}, c'.gist = c.gist → f c' = f c
  call : ∀ (c : Session F V) (x : Call), f (c.call x) = f c
  enter : ∀ (c : Session F V) (s : State V), f (c.onWorker (·.enter s)) = f c
  final : ∀ (c : Session F V) (cause : Error), f (c.enterFinal cause).2 = f c
  work : ∀ {α : Type} {store : Store.Atomic} {budget : List Use} {P : α → Prop} {t : Task F α} {c c' : Session F V}
    {a : Except Stop α}, c.perform t = (a, c') → Task.Within store budget P t → f c' = f c

/-- What is unmoved, no transform of the value moves, and no commit. -/
theorem Unmoved.updated {γ : Type} {f : Session F V → γ} (unmoved : Unmoved f) {transform : V → Outcome V} {v : V}
    {n : Nat} {a : Except Error V} (h : Updated c transform v n a c') : f c' = f c := by
  have called := unmoved.call c .transform
  cases h with
  | rejected => exact (unmoved.gist ((gist_note _ _ (by decide) _).trans (gist_recordTransformFailure _))).trans called
  | unchanged => exact (unmoved.gist (gist_recordUnchanged _)).trans called
  | committed result changed target performs =>
    refine (unmoved.gist (gist_publish _ _)).trans ((unmoved.enter _ _).trans ?_)
    refine (unmoved.gist (gist_note _ _ (by decide) _)).trans ?_
    exact (unmoved.work performs (Task.within_writeValue _)).trans called
  | lost _ _ _ performs =>
    exact (unmoved.final _ _).trans ((unmoved.work performs (Task.within_writeValue _)).trans called)
  | homeless => exact (unmoved.final _ _).trans called

theorem unmoved_fixed : Unmoved fun c : Session F V => c.worker.fixed where
  gist := fixed_of_gist
  call _ _ := rfl
  enter _ _ := rfl
  final _ := fixed_enterFinal
  work performs _ := fixed_of_perform performs

theorem fixed_updated {transform : V → Outcome V} {v : V} {n : Nat} {a : Except Error V}
    (h : Updated c transform v n a c') : c'.worker.fixed = c.worker.fixed := unmoved_fixed.updated h

/-- No transform, and no commit, ends a worker. -/
theorem life_updated {transform : V → Outcome V} {v : V} {n : Nat} {a : Except Error V}
    (h : Updated c transform v n a c') : c'.worker.life = c.worker.life := (Worker.of_fixed (fixed_updated h)).2.2.2

theorem setup_opened {a : Except Halt Unit} (h : Opened c a c') : c'.worker.setup = c.worker.setup := by
  have resolves {x : Resolved} {c₁ : Session F V} (h : Resolving (c.onWorker (·.reveal .initializing)) x c₁) :
      c₁.worker.setup = c.worker.setup := by cases h <;> rfl
  have enters (c : Session F V) (cause : Error) : (c.enterFinal cause).2.worker.setup = c.worker.setup :=
    (Worker.of_fixed (fixed_enterFinal cause)).1
  cases h with
  | ready => rfl
  | final => rfl
  | broke _ resolved =>
    have resolved := resolves resolved
    exact resolved
  | refused _ resolved => exact (enters _ _).trans (resolves resolved)
  | failed _ resolved performs =>
    exact (enters _ _).trans ((Worker.of_fixed (fixed_of_perform performs)).1.trans (resolves resolved))
  | began _ resolved performs =>
    have performed := (Worker.of_fixed (fixed_of_perform performs)).1.trans (resolves resolved)
    exact performed

/-- A cell keeps the setup it was built with. -/
theorem setup_happen (e : Event F V) : (c.happen e).2.worker.setup = c.worker.setup := by
  refine happen_keeps (P := fun c' => c'.worker.setup = c.worker.setup) ?_ ?_ ?_ ?_ ?_ rfl
  · exact fun gist same => (congrArg (·.worker.setup) gist).trans same
  · exact fun {c} _ same => (congrArg (·.worker.setup) (gist_shutDown c)).trans same
  · exact fun _ h same => (setup_opened h).trans same
  · exact fun _ _ h same => (Worker.of_fixed (fixed_updated h)).1.trans same
  · exact fun _ same => same

theorem setup_run (es : List (Event F V)) : (c.run es).2.worker.setup = c.worker.setup := by
  induction es generalizing c with
  | nil => rfl
  | cons e es ih => exact ih.trans (setup_happen e)

end

/-! ## Answers -/

/-- Whether a request is given `x`: as its answer, or as the last item of a subscription that ends with it. -/
def Hears (x : Except Error V) (r : Request V) (c : Session F V) : Prop :=
  match r with
  | .subscribe i => ∃ f, c.worker.feeds[i]? = some f ∧
      (c.happen (.request r)).2.worker.feeds[i]? = some { f with sent := f.sent ++ [x], isOpen := false }
  | _ => (c.happen (.request r)).1 = [.answer x]

variable {c}

/-- A subscription that is turned away gets one more item and ends. -/
theorem feeds_turnAway {i : Nat} (listener : c.worker.hasListener i = true) (e : Error) :
    ∃ f, c.worker.feeds[i]? = some f ∧
      (c.turnAway i e).worker.feeds[i]? = some { f with sent := f.sent ++ [.error e], isOpen := false } := by
  unfold Worker.hasListener at listener
  cases found : c.worker.feeds[i]? with
  | none => simp [found] at listener
  | some f =>
    have present : f.isDropped = false := by simpa [found] using listener
    refine ⟨f, rfl, ?_⟩
    simp [turnAway, onWorker, Worker.onFeed, found, Feed.send, Feed.finish, present]

theorem hears_final {t : Error} (final : c.worker.state = .final t) (serving : c.worker.life = .serving)
    {r : Request V} (needs : r.needsValue c.worker = true) : c.Hears (.error t) r := by
  have refused : c.ensureReady = (.error (.final t), c) := by simp [ensureReady, final]
  cases r with
  | update transform isAwaited =>
    cases needs
    simp [Hears, happen, serve, serving, handle, refused, Halt.error]
  | read isAwaited =>
    cases needs
    simp [Hears, happen, serve, serving, handle, refused, Halt.error]
  | subscribe i =>
    have listener : c.worker.hasListener i = true := needs
    simp only [Hears, happen, serve, serving, handle, refused, listener, if_true]
    exact feeds_turnAway listener t
  | close => cases needs

theorem hears_closed (closed : c.worker.life = .closed) {r : Request V} (needs : r.needsValue c.worker = true) :
    c.Hears (.error .closed) r := by
  cases r with
  | update transform isAwaited =>
    cases needs
    simp [Hears, happen, serve, closed, refuse]
  | read isAwaited =>
    cases needs
    simp [Hears, happen, serve, closed, refuse]
  | subscribe i =>
    simp only [Hears, happen, serve, closed, refuse]
    exact feeds_turnAway needs .closed
  | close => cases needs

end Session

/-! ## From the start -/

/-- A cell that was built has been asked nothing, and has done nothing but to claim a path that was given. -/
theorem build_ok {s : Setup V} {location : Location} {hasRuntime : Bool} {b b' : Bench F} {w : Worker V}
    (built : build s (some location) hasRuntime b = (.ok w, b')) :
    ∃ target label registry fields, w = { setup := s, target := target, label := label } ∧
      b' = { b with registry := registry, journal := b.journal.event .cellOpened fields } ∧
      match location with
      | .produced producer => target = .deferred producer ∧ registry = b.registry
      | .path p => ∃ e, target = .opened e ∧
          Store.openExclusive b.disk b.registry p s.config.storeOptions = (.ok e, registry) := by
  unfold build at built
  split at built
  · cases built
  · split at built
    · cases built
    · cases built
    · rename_i given
      cases given
      split at built
      · cases built
      · rename_i target label b₁ claimed
        cases built
        cases location with
        | produced producer =>
          cases claimed
          exact ⟨_, _, _, _, rfl, rfl, rfl, rfl⟩
        | path p =>
          simp only [claim] at claimed
          rcases opened : Store.openExclusive b.disk b.registry p s.config.storeOptions with ⟨e | e, r⟩ <;>
            rw [opened] at claimed <;> cases claimed
          exact ⟨_, _, _, _, rfl, rfl, e, rfl, opened⟩

end DurableValue.Cell
