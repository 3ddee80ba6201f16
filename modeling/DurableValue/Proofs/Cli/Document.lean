/-
  DurableValue.Proofs.Cli.Document — commands, one after the other, and the document in the file.

  What a file says is a document, or that it is corrupt, or nothing as there is no file (`Document`); and each action
  has an answer to that and says what the file says next (`Document.act`). Checking looks into the file itself; the
  other actions are one request each to a cell that is opened for it, with a default for the missing file and, for a
  reset, a replacement for corrupt bytes.

  Proved:
  - `ask_opens`, `run_enacts`: a command does just this to the file.
  - `turns_stand`: so commands answer what the document answers, as long as nothing fails of what they ask of the host
    (`Calm`).
  - `calm_turn`, `calm_turns`: that is so, at any path, if none of the host's operations fails that a commit may need
    (`Unfailing`); in the root none does (`unfailing_inRoot`).
  - `commands_follow_the_document`: all of that, from any contents of the file on.
-/
import DurableValue.Cli.Command
import DurableValue.Proofs.Cell.Single
import DurableValue.Proofs.Json.Gives
import DurableValue.Proofs.Store.Readback

namespace DurableValue

open Disk (Host)
open Json (Value)

/-! ## The document -/

namespace Cli

inductive Document where
  | missing
  | doc (v : Value)
  | corrupt

namespace Document

def of : Option Bytes → Document
  | none => .missing
  | some bs =>
    match Codec.json.decode bs with
    | .ok v => .doc v
    | .error _ => .corrupt

def status : Document → String
  | .missing => "missing"
  | .doc _ => "ok"
  | .corrupt => "corrupt"

def value : Document → Except Error.Code Value
  | .missing => .ok .null
  | .doc v => .ok v
  | .corrupt => .error .cellFailed

/-- What is there after a value was put: no file is made for null. -/
def put (w : Value) : Document → Document
  | .missing =>
    match w with
    | .null => .missing
    | w => .doc w
  | _ => .doc w

/-- What an action on the file at a path answers, and what the file says then. -/
def act (p : Path) (d : Document) : Action → Except Error.Code Value × Document
  | .check => (.ok (.object [("path", .string p.text), ("status", .string d.status)]), d)
  | .get => (d.value, d)
  | .set text =>
    match Value.parse text, d with
    | .error _, d => (.error .invalidValue, d)
    | .ok _, .corrupt => (.error .cellFailed, .corrupt)
    | .ok w, d => (.ok w, d.put w)
  | .reset => (.ok .null, d.put .null)

def answers (p : Path) : List Action → Document → List (Except Error.Code Value)
  | [], _ => []
  | a :: rest, d => (d.act p a).1 :: answers p rest (d.act p a).2

def after (p : Path) (d : Document) (actions : List Action) : Document :=
  actions.foldl (fun d a => (d.act p a).2) d

end Document

/-! ## The commands -/

/-- A command on a path, in the process that is there or in a new one with its journal. -/
structure Turn where
  action : Action
  config : Option Path := none
  marks : Cell.Marks
  process : Option Journal := none

namespace Turn

/-- What a turn begins with: a new process has only the disk from the one before it. -/
def start (t : Turn) (b : Running) : Running :=
  match t.process with
  | none => b
  | some journal => { disk := b.disk, registry := {}, journal := journal }

def run (p : Path) (t : Turn) (b : Running) : Except Error Value × Running :=
  Cli.run ⟨t.action, p, t.config⟩ t.marks (t.start b)

/-- Whether the value that is set, if one is, has no float in it. -/
def IsFloatless (t : Turn) : Prop :=
  ∀ text v, t.action = .set text → Value.parse text = .ok v → v.isFloatless = true

end Turn

def answers (p : Path) : List Turn → Running → List (Except Error.Code Value)
  | [], _ => []
  | t :: rest, b => (t.run p b).1.mapError (·.code) :: answers p rest (t.run p b).2

def left (p : Path) (b : Running) (turns : List Turn) : Running := turns.foldl (fun b t => (t.run p b).2) b

/-- What is in the file at a path, or that there is none, if nothing keeps one from reading it. -/
def contents (h : Host) (p : Path) : Except Disk.IoError (Option Bytes) :=
  match h.read p with
  | .ok bs => .ok (some bs)
  | .error e => if e.kind = .notFound ∧ h.entryExists p = false then .ok none else .error e

/-- Whether nothing fails of what commands ask of the host: their configurations load, with a scratch suffix that is
among `suffixes`, every commit returns, and nothing keeps one from reading the file when a command is done. -/
def Calm (p : Path) (suffixes : List String) : List Turn → Running → Prop
  | [], _ => True
  | t :: rest, b =>
    (∃ config, (configOf t.config (t.start b)).1 = .ok config ∧ config.scratchSuffix ∈ suffixes) ∧
      (∀ c ∈ (t.run p b).2.commits, c.HasReturned) ∧ (∃ found, contents (t.run p b).2.disk p = .ok found) ∧
      Calm p suffixes rest (t.run p b).2

/-- Whether nothing fails of what a commit asks of a host, whatever is committed, and nothing keeps one from reading the
file behind it. -/
def Serves (s : Store.Atomic) (h : Host) : Prop :=
  ∀ bs, (∀ m ∈ s.course bs (.makeParent (H := Nat)) h, m.1.Succeeds s bs m.2) ∧
    ∃ found, contents (s.write bs h).2 s.path = .ok found

def Unfailing (p : Path) (suffixes : List String) : List Turn → Running → Prop
  | [], _ => True
  | t :: rest, b =>
    (∃ config, (configOf t.config (t.start b)).1 = .ok config ∧ config.scratchSuffix ∈ suffixes ∧
      Serves ⟨p, p.withSuffix config.scratchSuffix, config.syncDirectory⟩ b.disk) ∧
      Unfailing p suffixes rest (t.run p b).2

/-- Whether no scratch file is left beside a file, under any of these suffixes that a configuration can have. -/
def Spare (p : Path) (suffixes : List String) (h : Host) : Prop :=
  ∀ x ∈ suffixes, x ≠ "" → '/' ∉ x.toList → Store.Atomic.Unoccupied ⟨p, p.withSuffix x, true⟩ h

/-! ## What a command is made of -/

section

variable {b : Running} {config : Config} {named : Option Path} {p : Path} {found : Option Bytes}

/-- A store reads what is in the file. -/
theorem read_eq_contents (s : Store.Atomic) (h : Host) :
    s.read h = ((contents h s.path).mapError (.readFailed s.path), h) := by
  have asked : Disk.FileSystem.read h s.path = (h.read s.path, h) := rfl
  have there : s.fileExists h = (h.entryExists s.path, h) := rfl
  rw [Store.Atomic.read, asked, contents]
  cases h.read s.path with
  | ok bs => rfl
  | error e =>
    simp only [there]
    by_cases absent : e.kind = .notFound
    · rw [if_pos absent]
      cases h.entryExists s.path with
      | true => rw [if_neg (by simp)]; rfl
      | false => rw [if_pos ⟨absent, rfl⟩]; rfl
    · rw [if_neg absent, if_neg fun both => absent both.1]
      rfl

/-- A configuration that loads is valid. -/
theorem valid_of_configOf (loaded : (configOf named b).1 = .ok config) : config.validate = .ok () := by
  unfold configOf at loaded
  cases named with
  | none =>
    cases loaded
    rfl
  | some q =>
    simp only [Config.load] at loaded
    cases read : Config.textOf q (b.disk.read q) with
    | error e =>
      rw [read] at loaded
      cases loaded
    | ok text =>
      simp only [read, Except.bind] at loaded
      cases parsed : Config.parse text with
      | error e =>
        rw [parsed] at loaded
        cases loaded
      | ok c =>
        rw [parsed] at loaded
        cases loaded
        exact Config.valid_of_parse parsed

theorem configOf_bench (named : Option Path) (b : Running) :
    (configOf named b).2.ledger = b.ledger ∧ (configOf named b).2.registry = b.registry := by
  cases named <;> exact ⟨rfl, rfl⟩

def storeAt (p : Path) (config : Config) : Store.Atomic :=
  ⟨p, p.withSuffix config.scratchSuffix, config.syncDirectory⟩

theorem read_of_contents {h : Host} (there : contents h p = .ok found) (config : Config) :
    (storeAt p config).read h = (.ok found, h) := by
  have path : (storeAt p config).path = p := rfl
  rw [read_eq_contents, path, there]
  rfl

/-! ## One command -/

def codec : Codec Value := Codec.json.codec .pretty .null

def stored (w : Value) : Bytes := (Codec.json.chunks .pretty w).flatten

/-- A cell has a value where the document has one, and refuses what is corrupt. -/
theorem valueOf_cases (found : Option Bytes) :
    (∃ v, codec.valueOf found = .ok v ∧ (Document.of found).value = .ok v) ∨
      ∃ e, codec.valueOf found = .error e ∧ e.isCorruption = true ∧ Document.of found = .corrupt := by
  cases found with
  | none => exact Or.inl ⟨.null, rfl, rfl⟩
  | some bs =>
    have value : codec.valueOf (some bs) = Codec.json.decode bs := rfl
    rw [value, Document.of]
    cases decoded : Codec.json.decode bs with
    | ok v => exact Or.inl ⟨v, rfl, rfl⟩
    | error e => exact Or.inr ⟨e, rfl, Codec.corrupt_of_decode decoded, rfl⟩

theorem valueOf_corrupt (corrupt : Document.of found = .corrupt) :
    ∃ e, codec.valueOf found = .error e ∧ e.isCorruption = true := by
  rcases valueOf_cases found with ⟨v, -, held⟩ | ⟨e, value, corruption, -⟩
  · rw [corrupt] at held
    cases held
  · exact ⟨e, value, corruption⟩

theorem Document.put_same {d : Document} {v : Value} (value : d.value = .ok v) : d.put v = d := by
  cases d <;> cases value <;> rfl

theorem Document.put_other {d : Document} {v w : Value} (value : d.value = .ok v) (other : w ≠ v) :
    d.put w = .doc w ∧ d.put w ≠ d := by
  cases d with
  | corrupt => cases value
  | doc u =>
    cases value
    exact ⟨rfl, fun same => other (Document.doc.inj same)⟩
  | missing =>
    cases value
    cases w with
    | null => exact absurd rfl other
    | _ => exact ⟨rfl, by simp [Document.put]⟩

/-- Whether a command did to the file what the document makes of its action, and answered so if its commits returned: it
left the file alone if the document stays what it is, and else began to commit the new one. -/
structure Enacts (s : Store.Atomic) (b : Running) (d : Document) (next : Except Error.Code Value × Document)
    (r : Except Error Value × Running) : Prop where
  idle : r.2.registry = {}
  kept : next.2 = d → r.2.ledger = b.ledger
  wrote : next.2 ≠ d → ∃ w, next.2 = .doc w ∧ w.Exact ∧ w.nesting < Json.Reader.depthLimit ∧
    r.2.ledger = b.ledger.afterWrite s (stored w)
  answers : r.2.ledger.Clean → r.1.mapError (·.code) = next.1

/-- A command that leaves the file alone. -/
theorem Enacts.of_kept {s : Store.Atomic} {d : Document} {a : Except Error.Code Value}
    {r : Except Error Value × Running} (idle : r.2.registry = {}) (kept : r.2.ledger = b.ledger)
    (answers : r.1.mapError (·.code) = a) : Enacts s b d (a, d) r :=
  ⟨idle, fun _ => kept, fun other => absurd rfl other, fun _ => answers⟩

theorem code_ofCell (e : Cell.Error) : (Error.ofCell e).code = .cellFailed := by
  unfold Error.ofCell
  cases e.cause <;> rfl

structure Opened (s : Store.Atomic) (repair : Option (Codec.Error → Cell.Outcome Value)) (b : Running)
    (found : Option Bytes) (c : Cell.Session Host Value) (e : Store.Exclusive) : Prop where
  codec : c.worker.setup.codec = Cli.codec
  same : c.worker.setup.same = Value.same
  handler : c.worker.setup.handler = repair
  plain : c.worker.setup.Plain
  fresh : c.worker.state = .uninitialized
  target : c.worker.target = .opened e
  store : e.store = s
  read : e.store.read c.bench.disk = (.ok found, c.bench.disk)
  ledger : c.bench.ledger = b.ledger

/-- A command that begins to commit. -/
theorem Enacts.of_wrote {s : Store.Atomic} {repair : Option (Codec.Error → Cell.Outcome Value)}
    {c : Cell.Session Host Value} {e : Store.Exclusive} {d d' : Document} {w : Value} {a : Except Cell.Error Value}
    {b' : Running} (opened : Opened s repair b found c e) (idle : b'.registry = {})
    (ledger : b'.ledger = Cell.Ledger.afterWrite ⟨c.bench.disk, c.bench.commits⟩ e.store (stored w)) (exact : w.Exact)
    (shallow : w.nesting < Json.Reader.depthLimit) (put : d' = .doc w) (changed : d' ≠ d)
    (answers : (e.store.write (stored w) c.bench.disk).1 = .ok () → a = .ok w) :
    Enacts s b d (.ok w, d') (a.mapError .ofCell, b') := by
  refine ⟨idle, fun kept => absurd kept changed, fun _ => ⟨w, put, exact, shallow, ?_⟩, fun clean => ?_⟩
  · rw [ledger, opened.store, ← opened.ledger]
    rfl
  · rw [ledger] at clean
    rw [answers (clean _ List.mem_cons_self)]
    rfl

section

variable (accepted : Store.checkPath p = .ok ()) (loaded : (configOf named b).1 = .ok config) (idle : b.registry = {})
  (there : contents b.disk p = .ok found) (action : Action) (marks : Cell.Marks)

include accepted loaded idle there

/-- What a command does with the cell it opens: it answers what the new cell answers to the one request, and leaves the
file as the cell left it. -/
theorem ask_opens (repair : Option (Codec.Error → Cell.Outcome Value)) (request : Cell.Request Value) :
    ∃ c e, Opened (storeAt p config) repair b found c e ∧ ∀ a l c', c.handle request = (.answer a, c') →
      c.Becomes l c' → ∃ b', ask ⟨action, p, named⟩ marks repair request b = (a.mapError .ofCell, b') ∧
        b'.ledger = l ∧ b'.registry = {} := by
  obtain ⟨ledger, registry⟩ := configOf_bench named b
  rcases configured : configOf named b with ⟨outcome, b₁⟩
  rw [configured] at loaded ledger registry
  cases loaded
  obtain ⟨w, b₂, e, built, setup, target, store, fresh, serving, ledger₂, released⟩ :=
    Cell.build_alone (s := { Cli.setup marks config with handler := repair }) (p := p)
      (valid_of_configOf (congrArg Prod.fst configured)) accepted (registry.trans idle)
  have ledger : b₂.ledger = b.ledger := ledger₂.trans ledger
  have disk : b₂.disk = b.disk := congrArg Cell.Ledger.disk ledger
  have store : e.store = storeAt p config := store
  have plain : w.setup.Plain := setup ▸ ⟨rfl, rfl, fun _ => rfl, fun _ => rfl⟩
  have read : e.store.read b₂.disk = (.ok found, b₂.disk) := by rw [store, disk, read_of_contents there]
  have opened : Opened (storeAt p config) repair b found ⟨w, b₂⟩ e :=
    ⟨by rw [setup]; rfl, by rw [setup]; rfl, by rw [setup], plain, fresh, target, store, read, ledger⟩
  refine ⟨⟨w, b₂⟩, e, opened, fun a l c' handled becomes => ?_⟩
  obtain ⟨c'', submitted, ledger', registry'⟩ := Cell.Session.submit_closing serving target handled becomes
  exact ⟨c''.bench, by simp only [ask, configured, built, submitted], ledger', registry'.trans released⟩

theorem get_enacts : Enacts (storeAt p config) b (.of found) ((Document.of found).value, .of found)
    (ask ⟨action, p, named⟩ marks none (.read true) b) := by
  obtain ⟨c, e, opened, closes⟩ := ask_opens accepted loaded idle there action marks none (.read true)
  rcases valueOf_cases found with ⟨v, value, held⟩ | ⟨x, value, corrupt, held⟩
  · rw [← opened.codec] at value
    obtain ⟨c', handled, becomes⟩ := Cell.Session.handle_read opened.fresh opened.target opened.plain opened.read value
    obtain ⟨b', asked, ledger, idle'⟩ := closes _ _ _ handled becomes
    rw [asked, held]
    exact .of_kept idle' (ledger.trans opened.ledger) rfl
  · rw [← opened.codec] at value
    obtain ⟨c', handled, becomes⟩ := Cell.Session.handle_corrupt (f := .returned) opened.fresh opened.target
      opened.plain opened.read value corrupt opened.handler (Or.inl rfl)
    obtain ⟨b', asked, ledger, idle'⟩ := closes _ _ _ handled becomes
    rw [asked, held]
    exact .of_kept idle' (ledger.trans opened.ledger) (congrArg Except.error (code_ofCell _))

variable {w : Value} (exact : w.Exact) (shallow : w.nesting < Json.Reader.depthLimit)

include exact shallow

/-- Putting a value where there is one. -/
theorem put_enacts {v : Value} (held : (Document.of found).value = .ok v)
    (repair : Option (Codec.Error → Cell.Outcome Value)) :
    Enacts (storeAt p config) b (.of found) (.ok w, (Document.of found).put w)
      (ask ⟨action, p, named⟩ marks repair (.update (fun _ => .returned w) true) b) := by
  obtain ⟨c, e, opened, closes⟩ := ask_opens accepted loaded idle there action marks repair
    (.update (fun _ => .returned w) true)
  have value : c.worker.setup.codec.valueOf found = .ok v := by
    rcases valueOf_cases found with ⟨v', value, held'⟩ | ⟨x, value, corrupt, held'⟩
    · cases held.symm.trans held'
      rw [opened.codec, value]
    · rw [held'] at held
      cases held
  cases same : Value.same w v with
  | true =>
    cases Value.eq_of_same exact same
    obtain ⟨c', handled, becomes⟩ := Cell.Session.handle_update_same (f := fun _ => .returned w) opened.fresh
      opened.target opened.plain opened.read value rfl (by rw [opened.same, same])
    obtain ⟨b', asked, ledger, idle'⟩ := closes _ _ _ handled becomes
    rw [asked, Document.put_same held]
    exact .of_kept idle' (ledger.trans opened.ledger) rfl
  | false =>
    have other : w ≠ v := fun equal => by
      rw [← equal, Value.same_self exact] at same
      cases same
    obtain ⟨put, changed⟩ := Document.put_other held other
    have encoded : c.worker.setup.codec.encode w = .ok (stored w) := by rw [opened.codec]; rfl
    obtain ⟨a, c', handled, becomes, answers⟩ := Cell.Session.handle_update (f := fun _ => .returned w) opened.fresh
      opened.target opened.plain opened.read value rfl (by rw [opened.same, same]) encoded
    obtain ⟨b', asked, ledger, idle'⟩ := closes _ _ _ handled becomes
    rw [asked]
    exact .of_wrote opened idle' ledger exact shallow put changed answers

omit exact shallow

/-- Nothing is put where the file is corrupt, unless the command repairs it. -/
theorem set_corrupt_enacts (corrupt : Document.of found = .corrupt) (w : Value) :
    Enacts (storeAt p config) b (.of found) (.error .cellFailed, .of found)
      (ask ⟨action, p, named⟩ marks none (.update (fun _ => .returned w) true) b) := by
  obtain ⟨c, e, opened, closes⟩ := ask_opens accepted loaded idle there action marks none
    (.update (fun _ => .returned w) true)
  obtain ⟨x, value, corruption⟩ := valueOf_corrupt corrupt
  rw [← opened.codec] at value
  obtain ⟨c', handled, becomes⟩ := Cell.Session.handle_corrupt opened.fresh opened.target opened.plain opened.read value
    corruption opened.handler (Or.inr rfl)
  obtain ⟨b', asked, ledger, idle'⟩ := closes _ _ _ handled becomes
  rw [asked]
  exact .of_kept idle' (ledger.trans opened.ledger) (congrArg Except.error (code_ofCell _))

theorem reset_corrupt_enacts (corrupt : Document.of found = .corrupt) :
    Enacts (storeAt p config) b (.of found) (.ok .null, .doc .null)
      (ask ⟨action, p, named⟩ marks (some fun _ => .returned .null) (.update (fun _ => .returned .null) true) b) := by
  obtain ⟨c, e, opened, closes⟩ := ask_opens accepted loaded idle there action marks
    (some fun _ => .returned .null) (.update (fun _ => .returned .null) true)
  obtain ⟨x, value, corruption⟩ := valueOf_corrupt corrupt
  rw [← opened.codec] at value
  have encoded : c.worker.setup.codec.encode .null = .ok (stored .null) := by rw [opened.codec]; rfl
  have same : c.worker.setup.same .null .null = true := by rw [opened.same]; rfl
  obtain ⟨a, c', handled, becomes, answers⟩ := Cell.Session.handle_update_repaired (f := fun _ => .returned .null)
    opened.fresh opened.target opened.plain opened.read value corruption opened.handler rfl encoded rfl same
  obtain ⟨b', asked, ledger, idle'⟩ := closes _ _ _ handled becomes
  rw [asked]
  exact .of_wrote opened idle' ledger trivial (by decide) rfl (by simp [corrupt]) answers

theorem check_enacts : Enacts (storeAt p config) b (.of found) ((Document.of found).act p .check)
    (check ⟨action, p, named⟩ b) := by
  obtain ⟨ledger, registry⟩ := configOf_bench named b
  rcases configured : configOf named b with ⟨outcome, b₁⟩
  rw [configured] at loaded ledger registry
  cases loaded
  have disk : b₁.disk = b.disk := congrArg Cell.Ledger.disk ledger
  have new : Store.Atomic.new p config.storeOptions = .ok (storeAt p config) := by
    rw [Store.Atomic.new, accepted]
    rfl
  have verdict : verdict found = .ok (Document.of found).status := by
    cases found with
    | none => rfl
    | some bs =>
      rw [Cli.verdict, Document.of]
      cases decoded : Codec.json.decode bs with
      | ok v => rfl
      | error e => simp only [Codec.corrupt_of_decode decoded, if_true, Document.status]
  have told : ((Except.ok found : Except Store.Error _).mapError Error.ofStore).bind Cli.verdict =
    .ok (Document.of found).status := verdict
  simp only [check, configured, new, disk, read_of_contents there, told]
  exact .of_kept (registry.trans idle) (by rw [← ledger, ← disk]) rfl

/-- **A command does to the file what the document makes of its action**, and answers so if its commits return. -/
theorem run_enacts (floatless : ∀ text v, action = .set text → Value.parse text = .ok v → v.isFloatless = true) :
    Enacts (storeAt p config) b (.of found) ((Document.of found).act p action)
      (run ⟨action, p, named⟩ marks b) := by
  cases action with
  | check => exact check_enacts accepted loaded idle there .check
  | get => exact get_enacts accepted loaded idle there .get marks
  | reset =>
    rcases valueOf_cases found with ⟨v, -, held⟩ | ⟨x, -, -, corrupt⟩
    · exact put_enacts (w := .null) accepted loaded idle there .reset marks trivial (by decide) held _
    · have put : (Document.of found).act p .reset = (.ok .null, .doc .null) := by rw [corrupt]; rfl
      rw [put]
      exact reset_corrupt_enacts accepted loaded idle there .reset marks corrupt
  | set text =>
    simp only [run, Document.act]
    cases parsed : Value.parse text with
    | error e => exact .of_kept idle rfl rfl
    | ok w =>
      obtain ⟨exact, shallow⟩ := Value.exact_of_parse parsed (floatless text w rfl parsed)
      rcases valueOf_cases found with ⟨v, -, held⟩ | ⟨x, -, -, corrupt⟩
      · have put := put_enacts accepted loaded idle there (.set text) marks exact shallow held none
        cases document : Document.of found with
        | corrupt => cases (document ▸ held)
        | _ =>
          rw [document] at put
          exact put
      · have refused := set_corrupt_enacts accepted loaded idle there (.set text) marks corrupt w
        rw [corrupt] at refused ⊢
        exact refused

end

end

/-! ## One turn, and many -/

/-- How things stand between two turns: no path is in use, the file says what the document is, and no scratch file is
left beside it. -/
structure Stands (p : Path) (suffixes : List String) (d : Document) (b : Running) : Prop where
  idle : b.registry = {}
  shows : ∃ found, contents b.disk p = .ok found ∧ Document.of found = d
  spare : Spare p suffixes b.disk

section

variable {p : Path} {suffixes : List String} {d : Document} {b : Running} {t : Turn} {rest : List Turn}

theorem Turn.start_disk (t : Turn) (b : Running) : (t.start b).disk = b.disk := by
  unfold Turn.start
  split <;> rfl

theorem Turn.start_idle (t : Turn) (idle : b.registry = {}) : (t.start b).registry = {} := by
  unfold Turn.start
  split
  · exact idle
  · rfl

/-- What was stored is the document that is found. -/
theorem of_stored {w : Value} (exact : w.Exact) (shallow : w.nesting < Json.Reader.depthLimit) :
    Document.of (some (stored w)) = .doc w := by
  rw [Document.of, stored, Codec.decode_encoded .pretty exact shallow]

variable (accepted : Store.checkPath p = .ok ()) (step : p.endsInStep = true)

include accepted step

/-- After a commit that returned the file is found as it was written, and no scratch file is left. -/
theorem spare_after_write {config : Config} {bs : Bytes} {h h' : Host} {found : Option Bytes}
    (spare : Spare p suffixes h) (valid : config.validate = .ok ()) (among : config.scratchSuffix ∈ suffixes)
    (written : (storeAt p config).write bs h = (.ok (), h')) (there : contents h' p = .ok found) :
    found = some bs ∧ Spare p suffixes h' := by
  have suffixed {x : String} (filled : x ≠ "") (free : '/' ∉ x.toList) (sync : Bool) :
      Store.Atomic.Suffixed ⟨p, p.withSuffix x, sync⟩ x := ⟨accepted, step, filled, free, rfl⟩
  obtain ⟨filled, free⟩ := Config.suffix_of_valid valid
  obtain ⟨same, others⟩ := Store.Atomic.read_after_write (suffixed filled free config.syncDirectory)
    (spare _ among filled free) written (congrArg Prod.fst (read_of_contents there config))
  exact ⟨same, fun x mem filled free => others _ x (suffixed filled free _) rfl (spare x mem filled free)⟩

/-- A turn in which nothing fails answers as the document does and leaves the file as the document says. -/
theorem turn_stands (stands : Stands p suffixes d b) (floatless : t.IsFloatless)
    (calm : Calm p suffixes (t :: rest) b) : (t.run p b).1.mapError (·.code) = (d.act p t.action).1 ∧
      Stands p suffixes (d.act p t.action).2 (t.run p b).2 ∧
      ((d.act p t.action).2 = d → (t.run p b).2.disk = b.disk) := by
  obtain ⟨idle, ⟨found, there, rfl⟩, spare⟩ := stands
  obtain ⟨⟨config, loaded, among⟩, returned, ⟨found', there'⟩, -⟩ := calm
  have start := t.start_disk b
  have enacts : Enacts (storeAt p config) (t.start b) (.of found) ((Document.of found).act p t.action) (t.run p b) :=
    run_enacts accepted loaded (t.start_idle idle) (start ▸ there) t.action t.marks floatless
  have answers := enacts.answers returned
  by_cases same : ((Document.of found).act p t.action).2 = .of found
  · have disk : (t.run p b).2.disk = b.disk := (congrArg Cell.Ledger.disk (enacts.kept same)).trans start
    exact ⟨answers, ⟨enacts.idle, ⟨found, by rw [disk, there], same.symm⟩, by rwa [disk]⟩, fun _ => disk⟩
  · obtain ⟨w, put, exact, shallow, ledger⟩ := enacts.wrote same
    have begun : ⟨storeAt p config, stored w, (t.start b).disk⟩ ∈ (t.run p b).2.commits := by
      have commits : (t.run p b).2.commits = _ := congrArg Cell.Ledger.commits ledger
      exact commits ▸ List.mem_cons_self
    have disk : (t.run p b).2.disk = ((storeAt p config).write (stored w) (t.start b).disk).2 :=
      congrArg Cell.Ledger.disk ledger
    have ok : ((storeAt p config).write (stored w) (t.start b).disk).1 = .ok () := returned _ begun
    obtain ⟨rfl, spare'⟩ := spare_after_write accepted step (start ▸ spare) (valid_of_configOf loaded) among
      (Prod.ext ok disk.symm) there'
    have shown : Document.of (some (stored w)) = ((Document.of found).act p t.action).2 := by
      rw [put, of_stored exact shallow]
    exact ⟨answers, ⟨enacts.idle, ⟨_, there', shown⟩, spare'⟩, fun kept => absurd kept same⟩

/-- The same of any number of turns, by induction on them: each leaves things as the next one needs them. -/
theorem turns_stand (turns : List Turn) (stands : Stands p suffixes d b) (calm : Calm p suffixes turns b)
    (floatless : ∀ t ∈ turns, t.IsFloatless) : answers p turns b = d.answers p (turns.map (·.action)) ∧
      Stands p suffixes (d.after p (turns.map (·.action))) (left p b turns) ∧
      ∀ before t later, turns = before ++ t :: later →
        d.after p ((before ++ [t]).map (·.action)) = d.after p (before.map (·.action)) →
        (left p b (before ++ [t])).disk = (left p b before).disk := by
  induction turns generalizing b d with
  | nil =>
    refine ⟨rfl, stands, fun before t later split => ?_⟩
    cases before <;> cases split
  | cons t rest ih =>
    obtain ⟨floatless, others⟩ := List.forall_mem_cons.mp floatless
    obtain ⟨answered, stands', untouched⟩ := turn_stands accepted step stands floatless calm
    obtain ⟨answers', last, untouched'⟩ := ih stands' calm.2.2.2 others
    refine ⟨List.cons_eq_cons.mpr ⟨answered, answers'⟩, last, fun before u later split same => ?_⟩
    cases before with
    | nil =>
      cases split
      exact untouched same
    | cons u' before =>
      cases split
      exact untouched' before u later rfl same

/-! ## Where nothing fails -/

variable (clean : b.ledger.Clean)

include clean

omit step in
/-- If nothing fails of what a command can ask of the host, nothing does of what it asks. -/
theorem calm_turn {config : Config} (stands : Stands p suffixes d b)
    (loaded : (configOf t.config (t.start b)).1 = .ok config) (among : config.scratchSuffix ∈ suffixes)
    (serves : Serves (storeAt p config) b.disk) (floatless : t.IsFloatless) : Calm p suffixes [t] b := by
  obtain ⟨idle, ⟨found, there, rfl⟩, -⟩ := stands
  rw [← t.start_disk b] at there serves
  have enacts : Enacts (storeAt p config) (t.start b) (.of found) ((Document.of found).act p t.action) (t.run p b) :=
    run_enacts accepted loaded (t.start_idle idle) there t.action t.marks floatless
  have clean : (t.start b).ledger.Clean := by
    unfold Turn.start
    split
    · exact clean
    · exact List.forall_mem_nil _
  refine ⟨⟨config, loaded, among⟩, ?_⟩
  by_cases same : ((Document.of found).act p t.action).2 = .of found
  · have ledger := enacts.kept same
    have disk : (t.run p b).2.disk = (t.start b).disk := congrArg Cell.Ledger.disk ledger
    rw [← ledger] at clean
    exact ⟨clean, ⟨found, by rw [disk, there]⟩, trivial⟩
  · obtain ⟨w, -, -, -, ledger⟩ := enacts.wrote same
    obtain ⟨succeeds, readable⟩ := serves (stored w)
    have clean := Cell.Ledger.clean_afterWrite clean ((Store.Atomic.settle_ok_iff _ _).mpr succeeds)
    have disk : (t.run p b).2.disk = ((storeAt p config).write (stored w) (t.start b).disk).2 :=
      congrArg Cell.Ledger.disk ledger
    rw [← ledger] at clean
    exact ⟨clean, by rwa [disk], trivial⟩

/-- So it is with any number of commands on any path, by induction on them. -/
theorem calm_turns (turns : List Turn) (stands : Stands p suffixes d b) (unfailing : Unfailing p suffixes turns b)
    (floatless : ∀ t ∈ turns, t.IsFloatless) : Calm p suffixes turns b := by
  induction turns generalizing b d with
  | nil => trivial
  | cons t rest ih =>
    obtain ⟨⟨config, loaded, among, serves⟩, unfailing⟩ := unfailing
    obtain ⟨floatless, others⟩ := List.forall_mem_cons.mp floatless
    have first := calm_turn accepted clean stands loaded among serves floatless
    obtain ⟨-, stands', -⟩ := turn_stands accepted step stands floatless first
    obtain ⟨loads, returned, readable, -⟩ := first
    exact ⟨loads, returned, readable, ih returned stands' unfailing others⟩

/-! ## In the root -/

section

variable {n m : String} (path : Host.InRoot p n) (scratch : Host.InRoot (p.withSuffix Store.defaultSuffix) m)
  (apart : m ≠ n) (parent : p.parent? = some ⟨"/"⟩)

include path scratch apart parent

omit accepted step clean in
/-- Nothing fails of what is asked of a host for a file in the root, if the configuration has the defaults. -/
theorem serves_inRoot (stands : Stands p [Store.defaultSuffix] d b) : Serves (storeAt p {}) b.disk := by
  obtain ⟨-, ⟨found, there, -⟩, spare⟩ := stands
  intro bs
  have up : (storeAt p {}).parent = ⟨"/"⟩ := congrArg (·.getD ⟨"/"⟩) parent
  have other : b.disk.node? [n] ≠ some .dir := fun dir => by
    rw [contents, path.read_dir dir] at there
    cases there
  have unoccupied := spare _ (List.mem_singleton_self _) (by decide) (by decide)
  obtain ⟨h', i, written, file⟩ := Store.Atomic.write_inRoot (s := storeAt p {}) path scratch apart up
    (unoccupied.node?_inRoot scratch up) other bs
  refine ⟨(Store.Atomic.settle_ok_iff _ _).mp (congrArg Prod.fst written), some (h'.bytesOf i), ?_⟩
  rw [written, contents, show (storeAt p {}).path = p from rfl, path.read file]

theorem unfailing_inRoot (turns : List Turn) (stands : Stands p [Store.defaultSuffix] d b)
    (default : ∀ t ∈ turns, t.config = none) (floatless : ∀ t ∈ turns, t.IsFloatless) :
    Unfailing p [Store.defaultSuffix] turns b := by
  induction turns generalizing b d with
  | nil => trivial
  | cons t rest ih =>
    obtain ⟨default, defaults⟩ := List.forall_mem_cons.mp default
    obtain ⟨floatless, others⟩ := List.forall_mem_cons.mp floatless
    have loaded : (configOf t.config (t.start b)).1 = .ok {} := by rw [default]; rfl
    have among : ({} : Config).scratchSuffix ∈ [Store.defaultSuffix] := List.mem_singleton_self _
    have serves := serves_inRoot path scratch apart parent stands
    have calm := calm_turn accepted clean stands loaded among serves floatless
    obtain ⟨-, stands', -⟩ := turn_stands accepted step stands floatless calm
    exact ⟨⟨{}, loaded, among, serves⟩, ih calm.2.1 stands' defaults others⟩

end

omit clean

/-- **Commands answer as the document does.** Commands are run on a path that ends in a step, one after the other, in
one process or in several, and no value that is set has a float in it. No cell is open, no scratch file is left beside
the file, and nothing fails of what the commands ask of the host. Whatever is in the file, be it there or not, the
commands answer what the document in the file answers to their actions; the file says in the end what the document then
is; and a command that leaves the document as it is leaves the disk as it is. -/
theorem commands_follow_the_document {found : Option Bytes} (idle : b.registry = {})
    (there : contents b.disk p = .ok found) (spare : Spare p suffixes b.disk) (turns : List Turn)
    (calm : Calm p suffixes turns b) (floatless : ∀ t ∈ turns, t.IsFloatless) :
    answers p turns b = (Document.of found).answers p (turns.map (·.action)) ∧
      (∃ found', contents (left p b turns).disk p = .ok found' ∧
        Document.of found' = (Document.of found).after p (turns.map (·.action))) ∧
      ∀ before t later, turns = before ++ t :: later →
        (Document.of found).after p ((before ++ [t]).map (·.action)) =
          (Document.of found).after p (before.map (·.action)) →
        (left p b (before ++ [t])).disk = (left p b before).disk := by
  obtain ⟨answered, last, untouched⟩ :=
    turns_stand accepted step turns ⟨idle, ⟨found, there, rfl⟩, spare⟩ calm floatless
  exact ⟨answered, last.shows, untouched⟩

end

/-! ## On a bare host -/

def setThenGet : List Turn :=
  [{ action := .set "[1]", marks := default }, { action := .get, marks := default, process := some {} }]

def bare : Running := { disk := {}, registry := {}, journal := {} }

theorem parse_list : Value.parse "[1]" = .ok (.array [.int 1]) := by
  have bytes : Text.encode "[1]" = [0x5B, 0x31, 0x5D] := by decide +kernel
  have parsed : Value.parse "[1]" = Json.Reader.document Codec.json.read (.whole (Text.encode "[1]")) := rfl
  rw [parsed, bytes]
  rfl

theorem floatless_setThenGet : ∀ t ∈ setThenGet, t.IsFloatless := by
  refine List.forall_mem_cons.mpr ⟨?_, List.forall_mem_singleton.mpr ?_⟩ <;> rintro text v ⟨⟩ parsed
  cases parse_list.symm.trans parsed
  rfl

theorem inRoot_bare : Host.InRoot ⟨"/v"⟩ "v" ∧ Host.InRoot ((Path.mk "/v").withSuffix Store.defaultSuffix) "v.tmp" := by
  have scratch : (Path.mk "/v").withSuffix Store.defaultSuffix = ⟨"/v.tmp"⟩ := rfl
  rw [scratch]
  constructor <;> exact ⟨rfl, rfl, by decide, ⟨by decide, by decide⟩, by decide, by decide +kernel⟩

theorem stands_bare : Stands ⟨"/v"⟩ [Store.defaultSuffix] .missing bare := by
  refine ⟨rfl, ⟨none, ?_, rfl⟩, fun x mem _ _ => ?_⟩
  · have absent := inRoot_bare.1.find_free (h := bare.disk) rfl
    rw [contents, Host.read, Host.entryExists, absent]
    rfl
  · cases List.mem_singleton.mp mem
    have made : Store.Atomic.made ⟨⟨"/v"⟩, (Path.mk "/v").withSuffix Store.defaultSuffix, true⟩ bare.disk = bare.disk :=
      congrArg Prod.snd (Host.createDirAll_of_isDir rfl (Store.Atomic.isDir_parent_inRoot rfl bare.disk))
    rw [Store.Atomic.Unoccupied, made]
    intro dir n slash reached
    cases (inRoot_bare.2.lastStep bare.disk).symm.trans reached
    rfl

theorem calm_bare : Calm ⟨"/v"⟩ [Store.defaultSuffix] setThenGet bare := by
  have defaults : ∀ t ∈ setThenGet, t.config = none :=
    List.forall_mem_cons.mpr ⟨rfl, List.forall_mem_singleton.mpr rfl⟩
  have clean : bare.ledger.Clean := List.forall_mem_nil _
  have unfailing := unfailing_inRoot rfl (by decide) clean inRoot_bare.1 inRoot_bare.2 (by decide)
    (by decide) setThenGet stands_bare defaults floatless_setThenGet
  exact calm_turns rfl (by decide) clean setThenGet stands_bare unfailing floatless_setThenGet

theorem a_value_that_is_set_is_got_in_the_next_process :
    answers ⟨"/v"⟩ setThenGet bare = [.ok (.array [.int 1]), .ok (.array [.int 1])] := by
  obtain ⟨found, there, missing⟩ := stands_bare.shows
  have follow := commands_follow_the_document rfl (by decide) stands_bare.idle there stands_bare.spare setThenGet
    calm_bare floatless_setThenGet
  rw [follow.1, missing]
  simp only [setThenGet, List.map, Document.answers, Document.act, parse_list, Document.put, Document.value]

end Cli

end DurableValue
