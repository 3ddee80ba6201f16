/-
  DurableValue.Cell.Opening — bringing the first value of a cell into being.

  The file is read and decoded; a file that is not there gives the codec's default, and corrupt bytes go to the
  corruption handler, whose replacement is committed before anything else happens. Then every migration that applies
  is run, in order, on the value so far. If the value changed, it is committed once for all of them, and only after
  that each migration that ran cleans up, all of them even if one fails. The first failure anywhere is the result.

  A job is this work in progress. It stops with an error, or by a panic of the codec, which nothing here contains.
-/
import DurableValue.Cell.Bench
import DurableValue.Cell.Setup
import DurableValue.Counters
import DurableValue.Journal.Scope

namespace DurableValue.Cell

open Disk (FileSystem)

/-- What a cell counts: its report, and the calls of its codec so far. -/
structure Tally where
  counters : Counters := {}
  decodes : Nat := 0
  encodes : Nat := 0
  deriving DecidableEq, Repr, Inhabited

structure Job (F : Type) where
  bench : Bench F
  tally : Tally

/-- Why a job ends early. -/
inductive Stop where
  | failed (e : Error)
  | broke (message : String)
  deriving DecidableEq, Repr

/-- Work on a job. What was done before it stops stays done. -/
abbrev Task (F : Type) := ExceptT Stop (StateM (Job F))

namespace Task

variable {F H V : Type} [FileSystem F H]

def fail {α : Type} (e : Error) : Task F α := throw (.failed e)

def onBench (f : Bench F → Bench F) : Task F Unit := modify fun j => { j with bench := f j.bench }

def count (f : Counters → Counters) : Task F Unit :=
  modify fun j => { j with tally := { j.tally with counters := f j.tally.counters } }

/-- Notes an event of the cell at `label`. -/
def note (s : Setup V) (label : String) (severity : Journal.Severity) (e : Journal.Event)
    (extra : List Journal.Field) : Task F Unit :=
  onBench fun b => b.note severity e.name (("instance", s.marks.instanceId) :: ("path", label) :: extra)

/-- Calls code of the caller and contains its panic; a failure is that of `collaborator`. -/
def consult {α : Type} (c : Call) (collaborator : String) (o : Outcome α) : Task F α := do
  onBench (·.record c)
  match o.result with
  | .ok a => pure a
  | .error reason => fail (.collaboratorFailed collaborator reason)

def suffer : Option Mishap → Task F Unit
  | none => pure ()
  | some (.fails e) => fail (.codecFailed e)
  | some (.panics m) => throw (.broke m)

/-! ## Committing -/

def encode (s : Setup V) (v : V) : Task F Bytes := do
  let call := (← get).tally.encodes
  modify fun j => { j with tally := { j.tally with encodes := call + 1 } }
  suffer (s.encodeMishap call)
  match s.codec.encode v with
  | .ok bs => pure bs
  | .error e => fail (.codecFailed e)

/-- Replaces the file's contents, passing the crash points on the way. -/
def replace (store : Store.Atomic) (bs : Bytes) : Task F Unit := do
  let j ← get
  let disk := j.bench.disk
  let passed := (store.crashPoints bs disk).map fun m => (⟨m.1, m.2, j.bench.journal⟩ : Moment F)
  let commit : Commit F := ⟨store, bs, disk⟩
  let (outcome, disk) := store.write bs disk
  let moments := passed.reverse ++ j.bench.moments
  set { j with bench := { j.bench with disk := disk, moments := moments, commits := commit :: j.bench.commits } }
  match outcome with
  | .ok () => pure ()
  | .error e => fail (.ofStore e)

/-- Commits a value and returns the number of bytes it took. -/
def writeValue (s : Setup V) (store : Store.Atomic) (v : V) : Task F Nat := do
  let bs ← encode s v
  replace store bs
  count (·.recordCommit bs.length)
  pure bs.length

/-! ## The first value -/

/-- Commits the replacement for bytes that could not be decoded. -/
def recover (s : Setup V) (store : Store.Atomic) (label : String) (e : Codec.Error) : Task F V := do
  note s label .warn .corruptionDetected [("reason", e.display)]
  match s.handler with
  | none => fail (.dataCorruption e)
  | some handler =>
    let replacement ← consult (.handle e) "corruption handler" (handler e)
    let size ← writeValue s store replacement
    onBench (·.pass .afterRecoveryCommit)
    count (·.recordRecovery)
    note s label .warn .corruptionRecovered [("bytes", toString size)]
    pure replacement

/-- Decodes stored bytes; a mishap that is corruption counts as corrupt bytes. -/
def decode (s : Setup V) (bs : Bytes) : Task F (Except Codec.Error V) := do
  let call := (← get).tally.decodes
  modify fun j => { j with tally := { j.tally with decodes := call + 1 } }
  match s.decodeMishap call with
  | none => pure (s.codec.decode bs)
  | some (.fails e) => pure (.error e)
  | some (.panics m) => throw (.broke m)

def readStore (store : Store.Atomic) : Task F (Option Bytes) := do
  let j ← get
  let (found, disk) := store.read j.bench.disk
  set { j with bench := { j.bench with disk := disk } }
  match found with
  | .ok bs => pure bs
  | .error e => fail (.ofStore e)

def makeDefault (s : Setup V) : Task F V :=
  match s.defaultPanic with
  | none => pure s.codec.default
  | some m => throw (.broke m)

def readInitial (s : Setup V) (store : Store.Atomic) (label : String) : Task F V := do
  match ← readStore store with
  | none => makeDefault s
  | some bs =>
    match ← decode s bs with
    | .ok v => pure v
    | .error e => if e.isCorruption then recover s store label e else fail (.codecFailed e)

/-! ## Migrations -/

def migrationName (m : Migration V) : String := "migration '" ++ m.name ++ "'"

/-- Runs the migrations that apply, each on the value so far. Returns the value and those that ran. -/
def migrateEach (s : Setup V) (label : String) :
    List (Nat × Migration V) → V → Task F (V × List (Nat × Migration V))
  | [], v => pure (v, [])
  | (i, m) :: ms, v => do
    if ← consult (.applies i) (migrationName m) (m.applies v) then
      let v ← consult (.migrate i) (migrationName m) (m.migrate v)
      note s label .info .migrationApplied [("migration", m.name)]
      let (v, ran) ← migrateEach s label ms v
      pure (v, (i, m) :: ran)
    else migrateEach s label ms v

/-- Lets every migration that ran clean up, and returns the first failure. -/
def cleanUpEach (s : Setup V) (label : String) : List (Nat × Migration V) → Option Error → Task F (Option Error)
  | [], first => pure first
  | (i, m) :: ms, first => do
    onBench (·.record (.cleanUp i))
    match m.cleanUp.result with
    | .ok () => cleanUpEach s label ms first
    | .error reason =>
      note s label .error .migrationCleanUpFailed [("migration", m.name), ("reason", reason)]
      let failure := Error.collaboratorFailed ("clean-up of " ++ migrationName m) reason
      cleanUpEach s label ms (first.or (some failure))

def numbered (ms : List (Migration V)) : List (Nat × Migration V) := ms.zipIdx.map fun m => (m.2, m.1)

def applyMigrations (s : Setup V) (store : Store.Atomic) (label : String) (start : V) : Task F V := do
  let (v, ran) ← migrateEach s label (numbered s.migrations) start
  if ran.isEmpty then pure v
  else
    if !s.same v start then
      let size ← writeValue s store v
      onBench (·.pass .afterMigrationCommit)
      note s label .info .commit [("version", "0"), ("bytes", toString size)]
    count (·.recordMigrations ran.length)
    match ← cleanUpEach s label ran none with
    | none => pure v
    | some failure => fail failure

/-! ## The whole -/

def scope (s : Setup V) (label : String) : Journal.Scope :=
  ⟨"CELL_INIT", [("instance", s.marks.instanceId), ("path", label)]⟩

def ending {α : Type} : Except Stop α → Journal.Scope.Ending
  | .ok _ => .complete []
  | .error (.failed e) => .fail e.display
  | .error (.broke _) => .abandoned

def onJournal (f : Journal → Journal) : Task F Unit := onBench fun b => { b with journal := f b.journal }

/-- Reads, repairs and migrates the stored value, inside a scope of the journal. -/
def firstValue (s : Setup V) (store : Store.Atomic) (label : String) : Task F V := do
  let bracket := scope s label
  onJournal bracket.opening
  let result ← ExceptT.lift (ExceptT.run (do applyMigrations s store label (← readInitial s store label)))
  onJournal (bracket.close s.marks.elapsed (ending result))
  ExceptT.mk (pure result)

end Task

end DurableValue.Cell
