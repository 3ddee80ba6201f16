/-
  DurableValue.Cell.Mailbox — how requests reach a worker, and how answers get back.

  The handles of a cell put what they are asked into one queue, which keeps the order of arrival and loses nothing.
  The worker takes one request at a time from the head of the queue, handles it, and answers its caller, if that one
  still waits. A request to close ends this, and so does the end of the queue when no handle is left: the worker gives
  the path back, closes the queue, refuses everything that is still in it, and answers the request to close last. A
  handle that finds the queue closed refuses what it is asked by itself.

  Between any two of these steps requests may arrive, handles may come and go, callers may leave, and receivers of
  subscriptions may take what was sent to them, or be dropped. Handling one request is one such step, however long it
  takes: nothing of that happens inside it.
-/
import DurableValue.Cell.Worker

namespace DurableValue.Cell

open Disk (FileSystem)

/-- What may be asked of a handle. -/
inductive Query (V : Type) where
  | update (transform : V → Outcome V)
  | read
  | subscribe
  | close

namespace Query

variable {V : Type}

def isSubscribe : Query V → Bool
  | subscribe => true
  | _ => false

def isClose : Query V → Bool
  | close => true
  | _ => false

end Query

/-- A query that was sent: its number in the order of arrival, and the feed that was made for it if it is for one. -/
structure Letter (V : Type) where
  number : Nat
  query : Query V
  feed : Nat

/-- The request that a letter is, once it is known whether its caller still waits. -/
def Letter.request {V : Type} (isAwaited : Bool) (l : Letter V) : Request V :=
  match l.query with
  | .update transform => .update transform isAwaited
  | .read => .read isAwaited
  | .subscribe => .subscribe l.feed
  | .close => .close

structure Caller (V : Type) where
  letter : Letter V
  isWaiting : Bool := true
  /-- Oldest first. -/
  heard : List (Reply V) := []

/-- Gives an answer to a caller, unless it has left. Silence is no answer. -/
def Caller.hear {V : Type} (a : Reply V) (k : Caller V) : Caller V :=
  match a with
  | .silence => k
  | a => if k.isWaiting then { k with heard := k.heard ++ [a] } else k

def Caller.leave {V : Type} (k : Caller V) : Caller V := { k with isWaiting := false }

/-- A letter that was handled, with whether its caller still waited then, and the answer. -/
structure Service (V : Type) where
  letter : Letter V
  isAwaited : Bool
  reply : Reply V

/-- What the worker does next. -/
inductive Turn (V : Type) where
  /-- It takes a request. -/
  | next
  /-- It answers the request that it has handled. -/
  | answer (number : Nat) (a : Reply V)
  /-- It has shut down and closes the queue. -/
  | seal
  /-- It refuses what is left in the queue. -/
  | drain
  | done

structure Mailbox (F V : Type) where
  session : Session F V
  turn : Turn V := .next
  /-- Oldest first. -/
  queue : List (Letter V) := []
  /-- Whether the queue takes requests. -/
  isOpen : Bool := true
  /-- How many handles there are. -/
  handles : Nat := 1
  /-- Everyone who ever sent a query, by number. -/
  callers : List (Caller V) := []
  /-- What was handled while the cell served, oldest first. -/
  handled : List (Service V) := []
  /-- The request that made the worker shut down. -/
  closer : Option (Letter V) := none
  /-- What was refused out of the queue, oldest first. -/
  drained : List (Letter V) := []
  /-- What the handles refused themselves, oldest first. -/
  turnedAway : List (Letter V) := []

/-- What may happen next. -/
inductive Act (F V : Type) where
  | ask (q : Query V)
  /-- A caller leaves; one who subscribed drops the subscription. -/
  | leave (number : Nat)
  /-- A subscriber takes the next item. -/
  | receive (number : Nat)
  | clone
  | drop
  /-- The disk changes by other hands. -/
  | outside (f : F → F)
  | work

namespace Mailbox

variable {F H V : Type} [FileSystem F H]

/-- A cell with one handle, of which nothing was asked yet. -/
def new (c : Session F V) : Mailbox F V := { session := c }

def isWaiting (m : Mailbox F V) (number : Nat) : Bool := m.callers[number]?.any (·.isWaiting)

/-- Gives an answer to the caller with a number. -/
def tell (number : Nat) (a : Reply V) (m : Mailbox F V) : Mailbox F V :=
  { m with callers := m.callers.modify number (·.hear a) }

/-- The feed of a caller who subscribed. -/
def feed? (m : Mailbox F V) (number : Nat) : Option Nat :=
  (m.callers[number]?.filter (·.letter.query.isSubscribe)).map (·.letter.feed)

/-- What a subscriber does to its feed. -/
def onFeed (number : Nat) (f : Feed V → Feed V) (m : Mailbox F V) : Mailbox F V :=
  { m with session :=
    match m.feed? number with
    | some i => m.session.onWorker (·.onFeed i f)
    | none => m.session }

/-! ## Handles -/

/-- What is sent for a query. -/
def letter (m : Mailbox F V) (q : Query V) : Letter V := ⟨m.callers.length, q, m.session.worker.feeds.length⟩

/-- Notes a new caller, and makes a feed for one who subscribes. -/
def join (q : Query V) (m : Mailbox F V) : Mailbox F V :=
  { m with
    session := if q.isSubscribe then m.session.onWorker (·.newFeed.2) else m.session
    callers := m.callers ++ [{ letter := m.letter q }] }

/-- Sends a query through a handle, if there is one. -/
def ask (q : Query V) (m : Mailbox F V) : Mailbox F V :=
  if m.handles = 0 then m
  else
    let l := m.letter q
    let m := m.join q
    if m.isOpen then { m with queue := m.queue ++ [l] }
    else
      let (a, session) := m.session.refuse (l.request true)
      { m with session := session, turnedAway := m.turnedAway ++ [l] }.tell l.number a

def leave (number : Nat) (m : Mailbox F V) : Mailbox F V :=
  let m := m.onFeed number Feed.drop
  { m with callers := m.callers.modify number Caller.leave }

/-! ## The worker -/

def take (l : Letter V) (m : Mailbox F V) : Mailbox F V :=
  let isAwaited := m.isWaiting l.number
  let (a, session) := m.session.handle (l.request isAwaited)
  { m with session := session, turn := .answer l.number a, handled := m.handled ++ [⟨l, isAwaited, a⟩] }

def shut (closer : Option (Letter V)) (m : Mailbox F V) : Mailbox F V :=
  { m with session := m.session.shutDown, turn := .seal, closer := closer }

/-- Refuses a request that was left in the queue. What a broken worker leaves behind is dropped. -/
def dispose (l : Letter V) (m : Mailbox F V) : Mailbox F V :=
  let r := l.request (m.isWaiting l.number)
  let (a, session) := match m.session.worker.life with
    | .broken => m.session.forsake r
    | _ => m.session.refuse r
  { m with session := session, drained := m.drained ++ [l] }.tell l.number a

/-- The callers once the one who made the worker shut down is answered. -/
def dismissed (m : Mailbox F V) : List (Caller V) :=
  match m.closer with
  | some l => m.callers.modify l.number (·.hear .acknowledged)
  | none => m.callers

/-- Lets the worker do its next step, if it has one. -/
def work (m : Mailbox F V) : Mailbox F V :=
  match m.turn with
  | .next =>
    match m.queue with
    | [] => if m.handles = 0 then m.shut none else m
    | l :: rest =>
      let m := { m with queue := rest }
      if l.query.isClose then m.shut (some l) else m.take l
  | .answer number a =>
    let m := m.tell number a
    match m.session.worker.life with
    | .broken => { m with turn := .drain, isOpen := false }
    | _ => { m with turn := .next }
  | .seal => { m with turn := .drain, isOpen := false }
  | .drain =>
    match m.queue with
    | l :: rest => { m with queue := rest }.dispose l
    | [] => { m with turn := .done, callers := m.dismissed }
  | .done => m

/-! ## Runs -/

def act (a : Act F V) (m : Mailbox F V) : Mailbox F V :=
  match a with
  | .ask q => m.ask q
  | .leave number => m.leave number
  | .receive number => m.onFeed number (·.next.2)
  | .clone => if m.handles = 0 then m else { m with handles := m.handles + 1 }
  | .drop => { m with handles := m.handles - 1 }
  | .outside f => { m with session.bench.disk := f m.session.bench.disk }
  | .work => m.work

/-- Lets acts happen one after another. -/
def run (as : List (Act F V)) (m : Mailbox F V) : Mailbox F V := as.foldl (fun m a => m.act a) m

/-- What a caller has got: the answer to its request, or the first item of its subscription. -/
def answers (number : Nat) (m : Mailbox F V) : List (Reply V) :=
  match m.callers[number]? with
  | none => []
  | some k =>
    if k.letter.query.isSubscribe then
      ((m.session.worker.feeds[k.letter.feed]?.bind (·.sent.head?)).map .answer).toList
    else k.heard

end Mailbox

end DurableValue.Cell
