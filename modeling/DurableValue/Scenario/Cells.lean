/-
  DurableValue.Scenario.Cells — the steps of a session that build cells and put requests to them.

  A step is over when the cell has nothing left to do. In a batch all requests are queued before the first is served.
-/
import DurableValue.Scenario.Reply
import DurableValue.Scenario.World

namespace DurableValue.Scenario

open Cell (Session Request)

/-- A cell to be built. -/
structure Plan (V : Type) where
  name : String
  disk : DiskName
  location : Option Cell.Location
  default : Option V
  layout : Json.Layout
  config : Except Config.Error Config
  handler : Option (Handler V)
  migrations : List Migrating
  fault : Option Fault
  hasRuntime : Bool

/-- A request of a batch. A request that nobody waits for is one whose caller left before its turn. -/
inductive Query (V : Type) where
  | update (e : Edit) (isAwaited : Bool)
  | set (v : V)
  | current (isAwaited : Bool)
  | close (isAwaited : Bool)
  | subscribe (name : String)
  /-- A subscription that is dropped at once. -/
  | glimpse

inductive CellStep (V : Type) where
  | update (e : Edit)
  | set (v : V)
  | current
  | close
  | batch (queries : List (Query V))
  /-- An update whose caller leaves before its turn. -/
  | cancel (e : Edit)
  /-- An update whose caller leaves while it runs, then a look at the value. -/
  | abandon (e : Edit)
  | glimpse
  | subscribe (name : String)
  | state
  | counters
  | clone (name : String)

/-- A step on a subscription. -/
inductive FeedStep where
  | receive
  | drain
  | unsubscribe
  deriving DecidableEq, Repr

namespace World

variable {V : Type}

/-! ## Building -/

def setupOf (k : Kind V) (p : Plan V) (config : Config) (marks : Cell.Marks) : Cell.Setup V where
  codec := k.codec p.layout p.default
  decodeMishap := Fault.mishap? p.fault true
  encodeMishap := Fault.mishap? p.fault false
  handler := p.handler.map Handler.run
  migrations := p.migrations.map fun m => m.migration k
  same := k.same
  config := config
  marks := marks

def fileOf (p : Plan V) : Option Path :=
  match p.location with
  | some (.path file) => some file
  | _ => none

def build (w : World V) (p : Plan V) : Reply V × World V :=
  match p.config with
  | .error e => (.configFailed e, w)
  | .ok config =>
    let (d, w) := w.disk p.disk
    let marks : Cell.Marks := ⟨w.identifier w.fresh, "0", toString w.fresh⟩
    let (built, b) := Cell.build (setupOf w.kind p config marks) p.location p.hasRuntime (w.bench d)
    let w := { w.absorb p.disk (fun _ => none) b with fresh := w.fresh + 1 }
    match built with
    | .error e => (.cellFailed e, w)
    | .ok worker =>
      let i := w.tenants.length
      let t : Tenant V := ⟨p.name, p.disk, worker, p.migrations, fileOf p⟩
      (.done, { w with tenants := w.tenants ++ [t] }.nameCell p.name i)

/-! ## Requests -/

/-- Makes the request of a query; a subscription gets its number here. -/
def request (k : Kind V) (q : Query V) (c : Session Disk V) : Request V × Session Disk V :=
  match q with
  | .update e isAwaited => (.update (k.edit e) isAwaited, c)
  | .set v => (.update (fun _ => .returned v) true, c)
  | .current isAwaited => (.read isAwaited, c)
  | .close _ => (.close, c)
  | .subscribe _ =>
    let (n, worker) := c.worker.newFeed
    (.subscribe n, { c with worker := worker })
  | .glimpse =>
    let (n, worker) := c.worker.newFeed
    (.subscribe n, { c with worker := worker.onFeed n Cell.Feed.drop })

def requests (k : Kind V) : List (Query V) → Session Disk V → List (Request V) × Session Disk V
  | [], c => ([], c)
  | q :: qs, c =>
    let (r, c) := request k q c
    let (rs, c) := requests k qs c
    (r :: rs, c)

/-- What a subscription has to tell next. -/
def nextOf (n : Nat) (c : Session Disk V) : Reply V × Session Disk V :=
  match c.worker.feeds[n]? with
  | none => (.ended, c)
  | some f =>
    let (next, f) := f.next
    let c := c.onWorker (·.onFeed n fun _ => f)
    match next with
    | .item i => (.ofCell i, c)
    | .pending => (.pending, c)
    | .ended => (.ended, c)

/-- What a query was answered, by its request and reply. -/
def outcome (q : Query V) (r : Request V) (a : Cell.Reply V) (c : Session Disk V) : Reply V × Session Disk V :=
  match q, r, a with
  | .subscribe _, .subscribe n, _ => nextOf n c
  | .close true, _, _ => (.closed, c)
  | _, _, .answer a => (.ofCell a, c)
  | _, _, _ => (.nothing, c)

def outcomes : List (Query V × Request V × Cell.Reply V) → Session Disk V → List (Reply V) × Session Disk V
  | [], c => ([], c)
  | (q, r, a) :: rest, c =>
    let (reply, c) := outcome q r a c
    let (replies, c) := outcomes rest c
    (reply :: replies, c)

/-- The subscriptions that a batch asked for, by name and number. -/
def subscribed : List (Query V × Request V) → List (String × Nat)
  | [] => []
  | (.subscribe name, .subscribe n) :: rest => (name, n) :: subscribed rest
  | _ :: rest => subscribed rest

/-- Puts queries to a cell all at once, and gives what each was answered. -/
def ask (w : World V) (i : Nat) (queries : List (Query V)) : Option (List (Reply V) × World V) := do
  let work (c : Session Disk V) : (List (Reply V) × List (String × Nat)) × Session Disk V :=
    let (rs, c) := requests w.kind queries c
    let (answers, c) := c.submit rs
    let (replies, c) := outcomes (queries.zip (rs.zip answers)) c
    ((replies, subscribed (queries.zip rs)), c)
  let ((replies, feeds), w) ← w.onCell i work
  some (replies, feeds.foldl (fun w f => w.nameFeed f.1 i f.2) w)

def askOne (w : World V) (i : Nat) (q : Query V) : Option (Reply V × World V) := do
  let (replies, w) ← w.ask i [q]
  some (← replies.head?, w)

def cellStep (w : World V) (name : String) (s : CellStep V) : Option (Reply V × World V) := do
  let (i, t) ← w.tenant? name
  match s with
  | .update e => w.askOne i (.update e true)
  | .set v => w.askOne i (.set v)
  | .current => w.askOne i (.current true)
  | .close => w.askOne i (.close true)
  | .subscribe feed => w.askOne i (.subscribe feed)
  | .glimpse => w.askOne i .glimpse
  | .batch queries =>
    let (replies, w) ← w.ask i queries
    some (.several replies, w)
  | .cancel e =>
    let (_, w) ← w.askOne i (.update e false)
    some (.nothing, w)
  | .abandon e =>
    let (_, w) ← w.askOne i (.update e true)
    w.askOne i (.current true)
  | .state => some (.nothing, w)
  | .counters => some (.counters t.worker.tally.counters, w)
  | .clone other => some (.sameInstance true, w.nameCell other i)

/-- Drops a handle of a cell. -/
def dropCell (w : World V) (name : String) : Reply V × World V :=
  let i := w.names.lookup name
  (.flag i.isSome, { w with names := forget name w.names }.release i)

def feedStep (w : World V) (name : String) (s : FeedStep) : Option (Reply V × World V) :=
  match s with
  | .unsubscribe =>
    let old := w.feeds.lookup name
    some (.flag old.isSome, { w with feeds := forget name w.feeds }.dropFeed old)
  | .receive => do
    let (i, n) ← w.feeds.lookup name
    w.onCell i (nextOf n)
  | .drain => do
    let (i, n) ← w.feeds.lookup name
    w.onCell i fun c =>
      match c.worker.feeds[n]? with
      | none => (.several [], c)
      | some f =>
        let (items, f) := f.drain
        (.several (items.map .ofCell), c.onWorker (·.onFeed n fun _ => f))

end World

end DurableValue.Scenario
