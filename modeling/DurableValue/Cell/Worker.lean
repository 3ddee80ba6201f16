/-
  DurableValue.Cell.Worker — the worker of a cell.

  It owns the value and takes requests one at a time, in the order of their arrival.

  The first request that needs the value brings it into being; that is tried once, and a cell that failed to start, or
  failed to commit, is final: everyone gets the same terminal error from then on. An update that is still awaited when
  its turn comes is carried to its end, whoever leaves meanwhile; one that is not awaited any more is dropped.

  A request is handled in one step, from the look at who still waits for it to its answer, with the initialization or
  the commit inside it. Receivers and callers act before it or after it. So a receiver that a request to subscribe
  finds open is open when the first value is sent to it, and gets it: that one leaves while the initialization it
  asked for is under way, so that the send fails and nothing is attached, is a run that this model does not have. Here
  it leaves behind the request, attached and counted, and the next commit drops it.

  Closing gives the path back and refuses what is queued behind it. A path producer that panics is the one thing that
  ends a worker without closing it: requests are refused from then on, but nothing more is shown or noted.
-/
import DurableValue.Cell.Feed
import DurableValue.Cell.Opening
import DurableValue.Cell.State
import DurableValue.Store.Exclusive
import DurableValue.Text.Quoted

namespace DurableValue.Cell

open Disk (FileSystem)

/-- Where the value lives. -/
inductive Target where
  | opened (e : Store.Exclusive)
  | deferred (producer : Producer)
  | unavailable

inductive Life where
  | serving
  | closed
  | broken
  deriving DecidableEq, Repr

structure Worker (V : Type) where
  setup : Setup V
  target : Target
  /-- What the journal calls the place of the value. -/
  label : String
  state : State V := .uninitialized
  /-- Every status shown so far, newest first. -/
  shown : List Status := [.uninitialized]
  /-- Every subscription ever asked for, by number. -/
  feeds : List (Feed V) := []
  /-- The subscriptions that get what is committed, oldest first. -/
  attached : List Nat := []
  /-- Whether the warning about the number of subscriptions was given and still holds. -/
  isHigh : Bool := false
  tally : Tally := {}
  life : Life := .serving

/-- What may be asked of a cell. A request is awaited as long as somebody wants the answer. -/
inductive Request (V : Type) where
  | update (transform : V → Outcome V) (isAwaited : Bool)
  | read (isAwaited : Bool)
  | subscribe (feed : Nat)
  | close

inductive Reply (V : Type) where
  | answer (a : Except Error V)
  | acknowledged
  /-- What there is to say goes to a feed, or to nobody. -/
  | silence

/-- Why a request gets no value. -/
inductive Halt where
  | final (terminal : Error)
  | broken
  deriving DecidableEq, Repr

def Halt.error : Halt → Error
  | final terminal => terminal
  | broken => .closed

/-- What became of the wish for a store. -/
inductive Resolved where
  | found (store : Store.Atomic)
  | refused (e : Error)
  | broken

namespace Worker

variable {V : Type}

def status (w : Worker V) : Status := w.shown.head?.getD .uninitialized

def reveal (s : Status) (w : Worker V) : Worker V := { w with shown := s :: w.shown }

def count (f : Counters → Counters) (w : Worker V) : Worker V :=
  { w with tally := { w.tally with counters := f w.tally.counters } }

/-- Moves to a state and shows it. -/
def enter (s : State V) (w : Worker V) : Worker V := { w with state := s }.reveal s.status

def onFeed (i : Nat) (f : Feed V → Feed V) (w : Worker V) : Worker V := { w with feeds := w.feeds.modify i f }

def hasListener (w : Worker V) (i : Nat) : Bool := w.feeds[i]?.any (!·.isDropped)

/-- Forgets the subscriptions whose receivers are gone. -/
def pruned (w : Worker V) : Worker V := { w with attached := w.attached.filter w.hasListener }

/-- Sends an item to every attached subscription. -/
def tell (i : Except Error V) (w : Worker V) : Worker V :=
  w.attached.foldl (fun (w : Worker V) n => w.onFeed n (·.send i)) w

/-- Ends every subscription. -/
def dismiss (w : Worker V) : Worker V :=
  let w := w.attached.foldl (fun (w : Worker V) n => w.onFeed n Feed.finish) w
  { w with attached := [] : Worker V }.count (·.setLive 0)

/-- Adds a subscription that is not attached yet, and gives its number. -/
def newFeed (w : Worker V) : Nat × Worker V := (w.feeds.length, { w with feeds := w.feeds ++ [{}] })

end Worker

/-- A worker at its bench. -/
structure Session (F V : Type) where
  worker : Worker V
  bench : Bench F

namespace Session

variable {F H V : Type} [FileSystem F H]

def onWorker (f : Worker V → Worker V) (c : Session F V) : Session F V := { c with worker := f c.worker }

def note (severity : Journal.Severity) (e : Journal.Event) (extra : List Journal.Field) (c : Session F V) :
    Session F V :=
  let fields := ("instance", c.worker.setup.marks.instanceId) :: ("path", c.worker.label) :: extra
  { c with bench := c.bench.note severity e.name fields }

/-- Notes a call to the caller's code. -/
def call (x : Call) (c : Session F V) : Session F V := { c with bench := c.bench.record x }

/-- Does a piece of work with the worker's tally and bench. -/
def perform {α : Type} (t : Task F α) (c : Session F V) : Except Stop α × Session F V :=
  let (result, job) := t.run ⟨c.bench, c.worker.tally⟩
  (result, { worker := { c.worker with tally := job.tally }, bench := job.bench })

/-- Why a piece of work ended early; a panic is told by the task that it happened in. -/
def stopError (c : Session F V) (work : String) : Stop → Error
  | .failed e => e
  | .broke message =>
    .internal (work ++ " task failed: task " ++ c.worker.setup.marks.taskNumber ++ " panicked with message "
      ++ Text.quoted message)

/-! ## Subscriptions -/

/-- Counts the live subscriptions, and warns once each time there come to be too many. -/
def checkAttached (c : Session F V) : Session F V :=
  let live := c.worker.attached.length
  let threshold := c.worker.setup.config.warnThreshold
  let c := c.onWorker (·.count (·.setLive live))
  if live ≤ threshold then c.onWorker fun w => { w with isHigh := false }
  else if c.worker.isHigh then c
  else
    (c.onWorker fun w => { w with isHigh := true }).note .warn .subscribersHigh
      [("subscribers", toString live), ("threshold", toString threshold)]

def publish (v : V) (c : Session F V) : Session F V :=
  (c.onWorker fun w => w.pruned.tell (.ok v)).checkAttached

def attach (v : V) (i : Nat) (c : Session F V) : Session F V :=
  (c.onWorker fun w =>
    let w := (w.onFeed i (·.send (.ok v))).pruned
    { w with attached := w.attached ++ [i] }.count (·.recordSubscriber)).checkAttached

/-! ## Final and closed -/

/-- Makes the cell final: the subscriptions get the terminal error and end. -/
def enterFinal (cause : Error) (c : Session F V) : Error × Session F V :=
  let terminal := Error.final cause
  let c := c.note .fatal .cellFinal [("code", cause.code.name), ("reason", cause.display)]
  (terminal, c.onWorker fun w => (w.tell (.error terminal)).dismiss.enter (.final terminal))

/-- Gives the path back, if there is one. -/
def releasePath (c : Session F V) : Session F V :=
  let registry := match c.worker.target with
    | .opened e => c.bench.registry.drop e.guard
    | _ => c.bench.registry
  { worker := { c.worker with target := .unavailable }, bench := { c.bench with registry := registry } }

def shutDown (c : Session F V) : Session F V :=
  (((c.onWorker (·.dismiss)).releasePath).onWorker fun w => { w with life := .closed }.reveal .closed).note
    .info .cellClosed []

/-! ## The value -/

/-- The open store; a path that was put off is made now, once. -/
def resolve (c : Session F V) : Resolved × Session F V :=
  match c.worker.target with
  | .opened e => (.found e.store, c)
  | .unavailable => (.refused .closed, c)
  | .deferred (.panics message) =>
    (.broken, (c.call (.produce (.panics message))).onWorker fun w => { w with target := .unavailable })
  | .deferred (.gives p) =>
    let bench := c.bench.record (.produce (.gives p))
    let (e, registry) := Store.openExclusive bench.disk bench.registry p c.worker.setup.config.storeOptions
    let bench := { bench with registry := registry }
    let worker := { c.worker with label := p.text }
    match e with
    | .error e => (.refused (.ofStore e), ⟨{ worker with target := .unavailable }, bench⟩)
    | .ok e => (.found e.store, ⟨{ worker with target := .opened e }, bench⟩)

/-- Sees to it that the cell has a value, or says why it has none. -/
def ensureReady (c : Session F V) : Except Halt Unit × Session F V :=
  match c.worker.state with
  | .ready _ _ => (.ok (), c)
  | .final terminal => (.error (.final terminal), c)
  | .uninitialized =>
    let refuse (cause : Error) (c : Session F V) : Except Halt Unit × Session F V :=
      let (terminal, c) := c.enterFinal cause
      (.error (.final terminal), c)
    match (c.onWorker (·.reveal .initializing)).resolve with
    | (.broken, c) => (.error .broken, c.onWorker fun w => { w with life := .broken })
    | (.refused e, c) => refuse e c
    | (.found store, c) =>
      match c.perform (Task.firstValue c.worker.setup store c.worker.label) with
      | (.ok v, c) => (.ok (), c.onWorker (·.enter (.ready v 0)))
      | (.error stop, c) => refuse (c.stopError "initialization" stop) c

/-- Makes `v` the value, under a new version. -/
def commit (v : V) (version : Nat) (c : Session F V) : Except Error V × Session F V :=
  let refuse (cause : Error) (c : Session F V) : Except Error V × Session F V :=
    let (terminal, c) := c.enterFinal cause
    (.error terminal, c)
  match c.worker.target with
  | .opened e =>
    match c.perform (Task.writeValue c.worker.setup e.store v) with
    | (.ok size, c) =>
      let c := c.note .info .commit [("version", toString version), ("bytes", toString size)]
      (.ok v, (c.onWorker (·.enter (.ready v version))).publish v)
    | (.error stop, c) => refuse (c.stopError "commit" stop) c
  | _ => refuse (.internal "commit without a store") c

/-- Applies a transform to the value. A failure, or a result equal to the value, commits nothing. -/
def update (transform : V → Outcome V) (c : Session F V) : Except Error V × Session F V :=
  match c.worker.state with
  | .uninitialized => (.error (.internal "update reached an uninitialized cell"), c)
  | .final terminal => (.error terminal, c)
  | .ready v version =>
    let c := c.call .transform
    match (transform v).result with
    | .error reason =>
      let failure := Error.transformFailed reason
      (.error failure, (c.onWorker (·.count (·.recordTransformFailure))).note .warn .transformFailed
        [("reason", failure.message)])
    | .ok next =>
      if c.worker.setup.same next v then (.ok next, c.onWorker (·.count (·.recordUnchanged)))
      else c.commit next (version + 1)

def read (c : Session F V) : Except Error V :=
  match c.worker.state with
  | .uninitialized => .error (.internal "read reached an uninitialized cell")
  | .final terminal => .error terminal
  | .ready v _ => .ok v

/-! ## Requests -/

/-- Sends a last item to a subscription that is not attached. -/
def turnAway (i : Nat) (e : Error) (c : Session F V) : Session F V :=
  c.onWorker (·.onFeed i fun f => (f.send (.error e)).finish)

/-- Lets a subscription go without a word. -/
def letGo (i : Nat) (c : Session F V) : Session F V := c.onWorker (·.onFeed i Feed.finish)

/-- Serves one request. -/
def handle (r : Request V) (c : Session F V) : Reply V × Session F V :=
  match r with
  | .update _ false => (.silence, (c.onWorker (·.count (·.recordCancelled))).note .info .updateCancelled [])
  | .update transform true =>
    match c.ensureReady with
    | (.error h, c) => (.answer (.error h.error), c)
    | (.ok (), c) =>
      let (a, c) := c.update transform
      (.answer a, c)
  | .read false => (.silence, c)
  | .read true =>
    match c.ensureReady with
    | (.error h, c) => (.answer (.error h.error), c)
    | (.ok (), c) => (.answer c.read, c)
  | .subscribe i =>
    if c.worker.hasListener i then
      match c.ensureReady with
      | (.error (.final terminal), c) => (.silence, c.turnAway i terminal)
      | (.error .broken, c) => (.silence, c.letGo i)
      | (.ok (), c) =>
        match c.worker.state with
        | .ready v _ => (.silence, c.attach v i)
        | _ => (.silence, c.letGo i)
    else (.silence, c.letGo i)
  | .close => (.acknowledged, c.shutDown)

/-- Answers a request to a cell that no longer serves. -/
def refuse (r : Request V) (c : Session F V) : Reply V × Session F V :=
  match r with
  | .update _ true | .read true => (.answer (.error .closed), c)
  | .update _ false | .read false => (.silence, c)
  | .subscribe i => (.silence, c.turnAway i .closed)
  | .close => (.acknowledged, c)

/-- Drops a request that was queued when the worker broke. -/
def forsake (r : Request V) (c : Session F V) : Reply V × Session F V :=
  match r with
  | .subscribe i => (.silence, c.letGo i)
  | r => c.refuse r

/-- Works a queue off, one reply for each request. -/
def serve : List (Request V) → Session F V → List (Reply V) × Session F V
  | [], c => ([], c)
  | r :: rs, c =>
    let (a, c) := match c.worker.life with
      | .serving => c.handle r
      | .closed => c.refuse r
      | .broken => c.forsake r
    let (as, c) := serve rs c
    (a :: as, c)

/-- Refuses every request of a list. -/
def refuseAll : List (Request V) → Session F V → List (Reply V) × Session F V
  | [], c => ([], c)
  | r :: rs, c =>
    let (a, c) := c.refuse r
    let (as, c) := refuseAll rs c
    (a :: as, c)

/-- Puts requests to the cell. A broken worker has no queue any more, so each is refused at once. -/
def submit (rs : List (Request V)) (c : Session F V) : List (Reply V) × Session F V :=
  match c.worker.life with
  | .broken => refuseAll rs c
  | _ => serve rs c

end Session

end DurableValue.Cell
