/-
  DurableValue.Proofs.Cell.Contained — a panic of the caller's code is an error.

  A cell calls code of its caller in five places: a transform, the corruption handler, and the three parts of a
  migration. `contained` puts an error with the panic's text in place of every panic of that code, in what a cell was
  given and in what it is asked. Putting it there before a cell works or after makes no difference; there is one
  equation for each operation.

  Proved:
  - `Task.firstValue_contained`: for the work on a job.
  - `Session.handle_contained`: for a request to a cell.
  - `Mailbox.act_contained`, `Mailbox.run_contained`: for an act of a mailbox, and for a run.
  - `a_panic_is_an_error`: nobody can tell a run with panics from one with errors.
-/
import DurableValue.Cell.Building
import DurableValue.Cell.Mailbox
import DurableValue.Proofs.Cell.Task

namespace DurableValue.Cell

open Disk (FileSystem)

variable {F H V α β : Type} [FileSystem F H]

/-! ## What the caller gives -/

/-- The same ending, but an error in place of a panic. -/
def Outcome.contained : Outcome α → Outcome α
  | .panicked payload => .failed ("panicked: " ++ payload.getD "non-string panic payload")
  | .returned a => .returned a
  | .failed reason => .failed reason

@[simp] theorem Outcome.result_contained (o : Outcome α) : o.contained.result = o.result := by cases o <;> rfl

def Migration.contained (m : Migration V) : Migration V where
  name := m.name
  applies v := (m.applies v).contained
  migrate v := (m.migrate v).contained
  cleanUp := m.cleanUp.contained

def Setup.contained (s : Setup V) : Setup V :=
  { s with
    handler := s.handler.map fun handler e => (handler e).contained
    migrations := s.migrations.map Migration.contained }

/-! ## Work -/

namespace Task

variable (s : Setup V) (store : Store.Atomic) (label : String)

@[simp] theorem consult_contained (c : Call) (collaborator : String) (o : Outcome α) :
    (consult c collaborator o.contained : Task F α) = consult c collaborator o := by
  simp only [consult, Outcome.result_contained]

@[simp] theorem note_contained (severity : Journal.Severity) (e : Journal.Event) (extra : List Journal.Field) :
    (note s.contained label severity e extra : Task F Unit) = note s label severity e extra := rfl

@[simp] theorem writeValue_contained (v : V) :
    (writeValue s.contained store v : Task F Nat) = writeValue s store v := rfl

theorem recover_contained (e : Codec.Error) :
    (recover s.contained store label e : Task F V) = recover s store label e := by
  simp only [recover, note_contained, writeValue_contained]
  refine bind_congr fun _ => ?_
  have given : s.contained.handler = s.handler.map fun handler e => (handler e).contained := rfl
  rw [given]
  cases s.handler with
  | none => rfl
  | some handler => simp only [Option.map_some, consult_contained]

theorem readInitial_contained :
    (readInitial s.contained store label : Task F V) = readInitial s store label := by
  have decoded (bs : Bytes) : (decode s.contained bs : Task F _) = decode s bs := rfl
  have default : (makeDefault s.contained : Task F V) = makeDefault s := rfl
  simp only [readInitial, decoded, default, recover_contained]

/-! ### Migrations -/

def containedAt (m : Nat × Migration V) : Nat × Migration V := (m.1, m.2.contained)

/-- The same migrations run, up to the panics that they have left. -/
theorem migrateEach_contained (ms : List (Nat × Migration V)) (v : V) :
    (migrateEach s.contained label (ms.map containedAt) v : Task F _) =
      (fun ran => (ran.1, ran.2.map containedAt)) <$> migrateEach s label ms v := by
  induction ms generalizing v with
  | nil => rfl
  | cons m ms ih =>
    obtain ⟨i, m⟩ := m
    simp only [List.map_cons, containedAt, migrateEach, Migration.contained, migrationName, consult_contained,
      note_contained, map_bind]
    refine bind_congr (m := Task F) fun applies => ?_
    cases applies with
    | false => exact ih v
    | true =>
      simp only [if_true, map_bind]
      refine bind_congr (m := Task F) fun next => bind_congr (m := Task F) fun _ => ?_
      rw [ih next]
      simp [containedAt, Migration.contained]

/-- Every migration that ran cleans up, also behind one that panics. -/
theorem cleanUpEach_contained (ms : List (Nat × Migration V)) (first : Option Error) :
    (cleanUpEach s.contained label (ms.map containedAt) first : Task F _) = cleanUpEach s label ms first := by
  induction ms generalizing first with
  | nil => rfl
  | cons m ms ih =>
    obtain ⟨i, m⟩ := m
    simp only [List.map_cons, containedAt, cleanUpEach, Migration.contained, migrationName, Outcome.result_contained,
      note_contained, ih]

theorem applyMigrations_contained (v : V) :
    (applyMigrations s.contained store label v : Task F V) = applyMigrations s store label v := by
  have numbers : numbered s.contained.migrations = (numbered s.migrations).map containedAt := by
    simp [numbered, Setup.contained, List.zipIdx_map, containedAt]
  have same : s.contained.same = s.same := rfl
  simp only [applyMigrations, numbers, migrateEach_contained, bind_map_left, List.isEmpty_map, List.length_map,
    cleanUpEach_contained, writeValue_contained, note_contained, same]

/-- The first value comes into being the same way. -/
theorem firstValue_contained :
    (firstValue s.contained store label : Task F V) = firstValue s store label := by
  have bracket : scope s.contained label = scope s label := rfl
  have marks : s.contained.marks = s.marks := rfl
  simp only [firstValue, bracket, marks, readInitial_contained, applyMigrations_contained]

end Task

/-! ## Workers -/

namespace Worker

def contained (w : Worker V) : Worker V := { w with setup := w.setup.contained }

section

variable (w : Worker V)

@[simp] theorem setup_contained : w.contained.setup = w.setup.contained := rfl

@[simp] theorem config_contained : w.setup.contained.config = w.setup.config := rfl

@[simp] theorem target_contained : w.contained.target = w.target := rfl

@[simp] theorem label_contained : w.contained.label = w.label := rfl

@[simp] theorem state_contained : w.contained.state = w.state := rfl

@[simp] theorem life_contained : w.contained.life = w.life := rfl

@[simp] theorem attached_contained : w.contained.attached = w.attached := rfl

@[simp] theorem isHigh_contained : w.contained.isHigh = w.isHigh := rfl

@[simp] theorem hasListener_contained (i : Nat) : w.contained.hasListener i = w.hasListener i := rfl

end

def Even (f : Worker V → Worker V) : Prop := ∀ w, f w.contained = (f w).contained

theorem foldl_contained {f : Worker V → Nat → Worker V} (even : ∀ n, Even (f · n)) (ns : List Nat) (w : Worker V) :
    ns.foldl f w.contained = (ns.foldl f w).contained := by
  induction ns generalizing w with
  | nil => rfl
  | cons n ns ih =>
    have step : f w.contained n = (f w n).contained := even n w
    rw [List.foldl_cons, step, ih, List.foldl_cons]

theorem tell_contained (x : Except Error V) (w : Worker V) : w.contained.tell x = (w.tell x).contained :=
  foldl_contained (fun _ _ => rfl) w.attached w

theorem dismiss_contained (w : Worker V) : w.contained.dismiss = w.dismiss.contained := by
  have finished := foldl_contained (f := fun (w : Worker V) n => w.onFeed n Feed.finish) (fun _ _ => rfl) w.attached w
  unfold dismiss
  rw [attached_contained, finished]
  rfl

end Worker

/-! ## Sessions -/

def Request.contained : Request V → Request V
  | .update transform isAwaited => .update (fun v => (transform v).contained) isAwaited
  | .read isAwaited => .read isAwaited
  | .subscribe feed => .subscribe feed
  | .close => .close

namespace Session

def contained (c : Session F V) : Session F V := { c with worker := c.worker.contained }

variable (c : Session F V)

@[simp] theorem bench_contained : c.contained.bench = c.bench := rfl

@[simp] theorem worker_contained : c.contained.worker = c.worker.contained := rfl

theorem onWorker_contained {f : Worker V → Worker V} (even : Worker.Even f) :
    c.contained.onWorker f = (c.onWorker f).contained :=
  congrArg (fun w => { c with worker := w }) (even c.worker)

@[simp] theorem note_contained (s : Journal.Severity) (e : Journal.Event) (extra : List Journal.Field) :
    c.contained.note s e extra = (c.note s e extra).contained := rfl

@[simp] theorem call_contained (x : Call) : c.contained.call x = (c.call x).contained := rfl

@[simp] theorem perform_contained (t : Task F α) :
    c.contained.perform t = ((c.perform t).1, (c.perform t).2.contained) := rfl

@[simp] theorem stopError_contained (work : String) (stop : Stop) :
    c.contained.stopError work stop = c.stopError work stop := by
  cases stop <;> rfl

theorem checkAttached_contained : c.contained.checkAttached = c.checkAttached.contained := by
  unfold checkAttached
  dsimp only [worker_contained, Worker.attached_contained, Worker.setup_contained, Worker.config_contained]
  split
  · rfl
  · have high : (c.contained.onWorker (·.count (·.setLive c.worker.attached.length))).worker.isHigh =
        (c.onWorker (·.count (·.setLive c.worker.attached.length))).worker.isHigh := rfl
    rw [high]
    split <;> rfl

theorem publish_contained (v : V) : c.contained.publish v = (c.publish v).contained := by
  have even : Worker.Even fun w : Worker V => w.pruned.tell (.ok v) := fun w => Worker.tell_contained (.ok v) w.pruned
  rw [publish, onWorker_contained c even, checkAttached_contained]
  rfl

theorem attach_contained (v : V) (i : Nat) : c.contained.attach v i = (c.attach v i).contained := by
  have even : Worker.Even fun w : Worker V =>
      { (w.onFeed i (·.send (.ok v))).pruned with
        attached := (w.onFeed i (·.send (.ok v))).pruned.attached ++ [i] : Worker V }.count (·.recordSubscriber) :=
    fun _ => rfl
  unfold attach
  rw [← checkAttached_contained]
  exact congrArg checkAttached (onWorker_contained c even)

@[simp] theorem turnAway_contained (i : Nat) (e : Error) : c.contained.turnAway i e = (c.turnAway i e).contained := rfl

@[simp] theorem letGo_contained (i : Nat) : c.contained.letGo i = (c.letGo i).contained := rfl

theorem enterFinal_contained (cause : Error) :
    c.contained.enterFinal cause = ((c.enterFinal cause).1, (c.enterFinal cause).2.contained) := by
  have even : Worker.Even fun w : Worker V =>
      (w.tell (.error (.final cause))).dismiss.enter (.final (.final cause)) := by
    intro w
    dsimp only
    rw [Worker.tell_contained, Worker.dismiss_contained]
    rfl
  simp only [enterFinal, note_contained, onWorker_contained _ even]

theorem shutDown_contained : c.contained.shutDown = c.shutDown.contained := by
  have released (c : Session F V) : c.contained.releasePath = c.releasePath.contained := rfl
  simp only [shutDown, onWorker_contained c Worker.dismiss_contained, released]
  rfl

/-! ### The value -/

theorem resolve_contained : c.contained.resolve = (c.resolve.1, c.resolve.2.contained) := by
  unfold resolve
  simp only [worker_contained, Worker.target_contained]
  split
  · rfl
  · rfl
  · rfl
  · simp only [bench_contained, Worker.setup_contained, Worker.config_contained]
    split <;> rfl

theorem ensureReady_contained : c.contained.ensureReady = (c.ensureReady.1, c.ensureReady.2.contained) := by
  have shown : c.contained.onWorker (·.reveal .initializing) = (c.onWorker (·.reveal .initializing)).contained := rfl
  unfold ensureReady
  simp only [worker_contained, Worker.state_contained, shown, resolve_contained]
  split
  · rfl
  · rfl
  · rcases (c.onWorker (·.reveal .initializing)).resolve with ⟨store | e | _, c₁⟩
    · simp only [worker_contained, Worker.setup_contained, Worker.label_contained, Task.firstValue_contained,
        perform_contained]
      rcases c₁.perform (Task.firstValue c₁.worker.setup store c₁.worker.label) with ⟨stop | v, c₂⟩
      · simp only [stopError_contained, enterFinal_contained]
      · rfl
    · simp only [enterFinal_contained]
    · rfl

theorem commit_contained (v : V) (n : Nat) :
    c.contained.commit v n = ((c.commit v n).1, (c.commit v n).2.contained) := by
  unfold commit
  simp only [worker_contained, Worker.target_contained]
  split
  · rename_i e target
    simp only [Worker.setup_contained, Task.writeValue_contained, perform_contained]
    rcases c.perform (Task.writeValue c.worker.setup e.store v) with ⟨stop | size, c₁⟩
    · simp only [stopError_contained, enterFinal_contained]
    · have entered : (c₁.note .info .commit [("version", toString n), ("bytes", toString size)]).contained.onWorker
          (·.enter (.ready v n)) = ((c₁.note .info .commit [("version", toString n),
            ("bytes", toString size)]).onWorker (·.enter (.ready v n))).contained := rfl
      simp only [note_contained, entered, publish_contained]
  · simp only [enterFinal_contained]

theorem update_contained (transform : V → Outcome V) :
    c.contained.update (fun v => (transform v).contained) =
      ((c.update transform).1, (c.update transform).2.contained) := by
  unfold update
  simp only [worker_contained, Worker.state_contained]
  cases c.worker.state with
  | uninitialized => rfl
  | final terminal => rfl
  | ready v n =>
    simp only [call_contained, Outcome.result_contained]
    cases (transform v).result with
    | error reason => rfl
    | ok next =>
      have same : (c.call .transform).contained.worker.setup.same = (c.call .transform).worker.setup.same := rfl
      simp only [same, commit_contained]
      split <;> rfl

@[simp] theorem read_contained : c.contained.read = c.read := rfl

/-! ### Requests -/

/-- A request is handled the same way. -/
theorem handle_contained (r : Request V) :
    c.contained.handle r.contained = ((c.handle r).1, (c.handle r).2.contained) := by
  cases r with
  | update transform isAwaited =>
    cases isAwaited with
    | false => rfl
    | true =>
      simp only [Request.contained, handle, ensureReady_contained]
      rcases c.ensureReady with ⟨halt | ⟨⟩, c₁⟩
      · rfl
      · simp only [update_contained]
  | read isAwaited =>
    cases isAwaited with
    | false => rfl
    | true =>
      simp only [Request.contained, handle, ensureReady_contained]
      rcases c.ensureReady with ⟨halt | ⟨⟩, c₁⟩ <;> rfl
  | subscribe i =>
    simp only [Request.contained, handle, ensureReady_contained, worker_contained, Worker.hasListener_contained]
    split
    · rcases c.ensureReady with ⟨(terminal | _) | ⟨⟩, c₁⟩
      · rfl
      · rfl
      · simp only [worker_contained, Worker.state_contained, attach_contained, letGo_contained]
        split <;> rfl
    · rfl
  | close => simp only [Request.contained, handle, shutDown_contained]

theorem refuse_contained (r : Request V) :
    c.contained.refuse r.contained = ((c.refuse r).1, (c.refuse r).2.contained) := by
  rcases r with ⟨transform, _ | _⟩ | ⟨_ | _⟩ | i | _ <;> rfl

theorem forsake_contained (r : Request V) :
    c.contained.forsake r.contained = ((c.forsake r).1, (c.forsake r).2.contained) := by
  rcases r with ⟨transform, _ | _⟩ | ⟨_ | _⟩ | i | _ <;> rfl

end Session

/-! ## Mailboxes -/

def Query.contained : Query V → Query V
  | .update transform => .update fun v => (transform v).contained
  | .read => .read
  | .subscribe => .subscribe
  | .close => .close

theorem Query.isSubscribe_contained (q : Query V) : q.contained.isSubscribe = q.isSubscribe := by cases q <;> rfl

theorem Query.isClose_contained (q : Query V) : q.contained.isClose = q.isClose := by cases q <;> rfl

def Letter.contained (l : Letter V) : Letter V := { l with query := l.query.contained }

@[simp] theorem Letter.query_contained (l : Letter V) : l.contained.query = l.query.contained := rfl

@[simp] theorem Letter.number_contained (l : Letter V) : l.contained.number = l.number := rfl

theorem Letter.request_contained (isAwaited : Bool) (l : Letter V) :
    l.contained.request isAwaited = (l.request isAwaited).contained := by
  obtain ⟨n, q, f⟩ := l
  cases q <;> rfl

def Caller.contained (k : Caller V) : Caller V := { k with letter := k.letter.contained }

@[simp] theorem Caller.letter_contained (k : Caller V) : k.contained.letter = k.letter.contained := rfl

theorem Caller.hear_contained (a : Reply V) (k : Caller V) : k.contained.hear a = (k.hear a).contained := by
  obtain ⟨l, isWaiting, heard⟩ := k
  cases a <;> cases isWaiting <;> rfl

def Service.contained (s : Service V) : Service V := { s with letter := s.letter.contained }

def Act.contained : Act F V → Act F V
  | .ask q => .ask q.contained
  | .leave number => .leave number
  | .receive number => .receive number
  | .clone => .clone
  | .drop => .drop
  | .outside f => .outside f
  | .work => .work

namespace Mailbox

def contained (m : Mailbox F V) : Mailbox F V where
  session := m.session.contained
  turn := m.turn
  queue := m.queue.map Letter.contained
  isOpen := m.isOpen
  handles := m.handles
  callers := m.callers.map Caller.contained
  handled := m.handled.map Service.contained
  closer := m.closer.map Letter.contained
  drained := m.drained.map Letter.contained
  turnedAway := m.turnedAway.map Letter.contained

variable (m : Mailbox F V)

theorem caller_contained (n : Nat) : m.contained.callers[n]? = m.callers[n]?.map Caller.contained :=
  List.getElem?_map

@[simp] theorem isWaiting_contained (n : Nat) : m.contained.isWaiting n = m.isWaiting n := by
  rw [isWaiting, caller_contained, isWaiting]
  cases m.callers[n]? <;> rfl

@[simp] theorem feed?_contained (n : Nat) : m.contained.feed? n = m.feed? n := by
  rw [feed?, caller_contained, feed?]
  cases m.callers[n]? with
  | none => rfl
  | some k =>
    simp only [Option.map_some, Option.filter_some, Caller.letter_contained, Letter.query_contained,
      Query.isSubscribe_contained]
    split <;> rfl

theorem modify_contained {f : Caller V → Caller V} (even : ∀ k, f k.contained = (f k).contained) (n : Nat)
    (ks : List (Caller V)) : (ks.map Caller.contained).modify n f = (ks.modify n f).map Caller.contained := by
  induction ks generalizing n with
  | nil => simp
  | cons k ks ih => cases n <;> simp [even, ih]

theorem tell_contained (n : Nat) (a : Reply V) : m.contained.tell n a = (m.tell n a).contained :=
  congrArg (fun ks => { m.contained with callers := ks }) (modify_contained (Caller.hear_contained a) n m.callers)

theorem onFeed_contained (n : Nat) (f : Feed V → Feed V) : m.contained.onFeed n f = (m.onFeed n f).contained := by
  unfold onFeed
  rw [feed?_contained]
  cases m.feed? n <;> rfl

theorem leave_contained (n : Nat) : m.contained.leave n = (m.leave n).contained := by
  have left := modify_contained (f := Caller.leave) (fun _ => rfl) n (m.onFeed n Feed.drop).callers
  unfold leave
  rw [onFeed_contained]
  exact congrArg (fun ks => { (m.onFeed n Feed.drop).contained with callers := ks }) left

theorem letter_contained (q : Query V) : m.contained.letter q.contained = (m.letter q).contained := by
  simp [letter, contained, Letter.contained, Session.contained, Worker.contained]

theorem map_concat (f : α → β) (as : List α) (a : α) : as.map f ++ [f a] = (as ++ [a]).map f := by
  rw [List.map_append, List.map_singleton]

theorem join_contained (q : Query V) : m.contained.join q.contained = (m.join q).contained := by
  have session : (if q.isSubscribe then m.contained.session.onWorker (·.newFeed.2) else m.contained.session) =
      (if q.isSubscribe then m.session.onWorker (·.newFeed.2) else m.session).contained := by
    split <;> rfl
  have callers : m.contained.callers ++ [{ letter := (m.letter q).contained : Caller V }] =
      (m.callers ++ [{ letter := m.letter q : Caller V }]).map Caller.contained :=
    map_concat Caller.contained m.callers { letter := m.letter q }
  simp only [join, Query.isSubscribe_contained, letter_contained, session, callers]
  rfl

theorem ask_contained (q : Query V) : m.contained.ask q.contained = (m.ask q).contained := by
  unfold ask
  simp only [letter_contained, join_contained, Letter.request_contained]
  by_cases none : m.handles = 0
  · rw [if_pos none, if_pos (show m.contained.handles = 0 from none)]
  rw [if_neg none, if_neg (show ¬ m.contained.handles = 0 from none)]
  by_cases isOpen : (m.join q).isOpen = true
  · rw [if_pos isOpen, if_pos (show (m.join q).contained.isOpen = true from isOpen)]
    exact congrArg (fun ls => { (m.join q).contained with queue := ls })
      (map_concat Letter.contained (m.join q).queue (m.letter q))
  · rw [if_neg isOpen, if_neg (show ¬ (m.join q).contained.isOpen = true from isOpen)]
    have refused : (m.join q).contained.session.refuse ((m.letter q).request true).contained = _ :=
      Session.refuse_contained (m.join q).session ((m.letter q).request true)
    simp only [refused]
    rcases (m.join q).session.refuse ((m.letter q).request true) with ⟨a, session⟩
    have away := map_concat Letter.contained (m.join q).turnedAway (m.letter q)
    rw [← tell_contained]
    exact congrArg (fun ls => { (m.join q).contained with
      session := session.contained, turnedAway := ls : Mailbox F V }.tell (m.letter q).number a) away

@[simp] theorem session_contained : m.contained.session = m.session.contained := rfl

theorem take_contained (l : Letter V) : m.contained.take l.contained = (m.take l).contained := by
  unfold take
  simp only [session_contained, isWaiting_contained, Letter.number_contained, Letter.request_contained,
    Session.handle_contained]
  rcases m.session.handle (l.request (m.isWaiting l.number)) with ⟨a, session⟩
  exact congrArg (fun ss => { m.contained with
      session := session.contained, turn := .answer l.number a, handled := ss : Mailbox F V })
    (map_concat Service.contained m.handled ⟨l, m.isWaiting l.number, a⟩)

theorem shut_contained (closer : Option (Letter V)) :
    m.contained.shut (closer.map Letter.contained) = (m.shut closer).contained := by
  unfold shut
  rw [session_contained, Session.shutDown_contained]
  rfl

theorem dispose_contained (l : Letter V) : m.contained.dispose l.contained = (m.dispose l).contained := by
  have put (a : Reply V) (session : Session F V) :
      { m.contained with
        session := session.contained
        drained := m.contained.drained ++ [l.contained] : Mailbox F V }.tell l.number a =
      ({ m with session := session, drained := m.drained ++ [l] : Mailbox F V }.tell l.number a).contained := by
    rw [← tell_contained]
    exact congrArg (fun ls => { m.contained with session := session.contained, drained := ls }.tell l.number a)
      (map_concat Letter.contained m.drained l)
  unfold dispose
  simp only [session_contained, Session.worker_contained, Worker.life_contained, isWaiting_contained,
    Letter.number_contained, Letter.request_contained, Session.forsake_contained, Session.refuse_contained]
  split <;> exact put _ _

theorem dismissed_contained : m.contained.dismissed = m.dismissed.map Caller.contained := by
  unfold dismissed
  rw [show m.contained.closer = m.closer.map Letter.contained from rfl]
  cases m.closer with
  | none => rfl
  | some l => exact modify_contained (Caller.hear_contained .acknowledged) l.number m.callers

theorem work_contained : m.contained.work = m.work.contained := by
  have queue : m.contained.queue = m.queue.map Letter.contained := rfl
  unfold work
  rw [show m.contained.turn = m.turn from rfl]
  split
  -- The worker is free: it takes a letter, or shuts down if that asks for it or nobody is left to ask.
  · rw [queue]
    rcases m.queue with _ | ⟨l, rest⟩
    · simp only [List.map_nil, show m.contained.handles = m.handles from rfl]
      split
      · exact shut_contained m none
      · rfl
    · simp only [List.map_cons, Letter.query_contained, Query.isClose_contained]
      split
      · exact shut_contained { m with queue := rest } (some l)
      · exact take_contained { m with queue := rest } l
  · rename_i n a _
    simp only [tell_contained, session_contained, Session.worker_contained, Worker.life_contained]
    split <;> rfl
  · rfl
  · rw [queue]
    rcases letters : m.queue with _ | ⟨l, rest⟩
    · have same : m.contained.dismissed = _ := dismissed_contained m
      simp only [List.map_nil, same]
      simp [contained, letters]
    · exact dispose_contained { m with queue := rest } l
  · rfl

/-! ### Runs -/

theorem act_contained (a : Act F V) : m.contained.act a.contained = (m.act a).contained := by
  cases a with
  | ask q => exact ask_contained m q
  | leave n => exact leave_contained m n
  | receive n => exact onFeed_contained m n _
  | clone =>
    simp only [Act.contained, act, show m.contained.handles = m.handles from rfl]
    split <;> rfl
  | drop => rfl
  | outside f => rfl
  | work => exact work_contained m

/-- **A run with errors in place of panics** leads where the run with panics does, up to the panics it has left. -/
theorem run_contained (as : List (Act F V)) : m.contained.run (as.map Act.contained) = (m.run as).contained := by
  induction as generalizing m with
  | nil => rfl
  | cons a as ih =>
    change (m.contained.act a.contained).run (as.map Act.contained) = ((m.act a).run as).contained
    rw [act_contained, ih]

theorem answers_contained (n : Nat) : m.contained.answers n = m.answers n := by
  rw [answers, caller_contained, answers]
  cases m.callers[n]? with
  | none => rfl
  | some k =>
    simp only [Option.map_some, Caller.letter_contained, Letter.query_contained, Query.isSubscribe_contained]
    rfl

/-- Whether nobody can tell two cells apart: not those who asked or subscribed, not those who look at the status, the
counters, the disk or the journal, and not the code of the caller either, by how it is called. -/
structure Indistinguishable (m m' : Mailbox F V) : Prop where
  answers : ∀ n, m'.answers n = m.answers n
  heard : m'.callers.map (·.heard) = m.callers.map (·.heard)
  statuses : m'.session.worker.shown = m.session.worker.shown
  items : m'.session.worker.feeds = m.session.worker.feeds
  counters : m'.session.worker.tally.counters = m.session.worker.tally.counters
  /-- The disk now and at every crash point passed, the registry, the journal, and the calls to the caller's code. -/
  bench : m'.session.bench = m.session.bench

theorem indistinguishable_contained : Indistinguishable m m.contained where
  answers := answers_contained m
  heard := List.map_map.trans rfl
  statuses := rfl
  items := rfl
  counters := rfl
  bench := rfl

end Mailbox

/-! ## Building -/

/-- A cell is built the same way. -/
theorem build_contained (s : Setup V) (location : Option Location) (hasRuntime : Bool) (b : Bench F) :
    build s.contained location hasRuntime b =
      ((build s location hasRuntime b).1.map Worker.contained, (build s location hasRuntime b).2) := by
  have claimed (l : Location) : claim s.contained l b = claim s l b := rfl
  have count : s.contained.migrations.length = s.migrations.length := List.length_map ..
  unfold build
  simp only [claimed, count, show s.contained.config = s.config from rfl]
  split
  · rfl
  · split
    · rfl
    · rfl
    · rename_i l valid
      rcases claim s l b with ⟨e | ⟨target, label⟩, b₁⟩ <;> rfl

/-- **A panic of the caller's code is exactly an error** whose text is `panicked: ` and the panic's message. Of two
cells that are built alike, but for errors that one is given where the other is given panics, either both are refused
for the same reason or neither is. Whatever is done to them then, with the same change to what they are asked, nobody
can tell them apart at any moment: the answers, the statuses shown, all items of all subscriptions, the counters, the
disk and the lines of the journal are the same, and so are the calls to the caller's code, in their order. -/
theorem a_panic_is_an_error (s : Setup V) (location : Option Location) (hasRuntime : Bool) (b : Bench F) :
    match build s location hasRuntime b, build s.contained location hasRuntime b with
    | (.ok w, b₁), (.ok w', b₂) => b₂ = b₁ ∧ ∀ as : List (Act F V),
      ((Mailbox.new ⟨w, b₁⟩).run as).Indistinguishable ((Mailbox.new ⟨w', b₂⟩).run (as.map Act.contained))
    | (.error e, b₁), (.error e', b₂) => e' = e ∧ b₂ = b₁
    | _, _ => False := by
  rw [build_contained]
  rcases build s location hasRuntime b with ⟨e | w, b₁⟩
  · exact ⟨rfl, rfl⟩
  · refine ⟨rfl, fun as => ?_⟩
    have start : Mailbox.new ⟨w.contained, b₁⟩ = (Mailbox.new ⟨w, b₁⟩).contained := rfl
    rw [start, Mailbox.run_contained]
    exact Mailbox.indistinguishable_contained _

example : (Outcome.panicked (some "kaput") : Outcome Int).contained = .failed "panicked: kaput" := rfl

end DurableValue.Cell
