/-
  DurableValue.Cli.Command — running a command.

  A command works on one cell of JSON values in a file of the host, and closes the cell before it answers. Reading and
  setting give the value; resetting sets null, and repairs a corrupt file on the way; checking opens no cell and
  changes nothing.
-/
import DurableValue.Cell.Building
import DurableValue.Cli.Arguments
import DurableValue.Cli.Error

namespace DurableValue.Cli

open Cell (Bench Session)

abbrev Running := Bench Disk.Host

/-- Reads the configuration that a command names. -/
def configOf (config : Option Path) (b : Running) : Except Error Config × Running :=
  match config with
  | none => (.ok {}, b)
  | some p =>
    let (c, journal) := Config.load b.disk p b.journal
    (c.mapError .ofConfig, { b with journal := journal })

def setup (marks : Cell.Marks) (config : Config) : Cell.Setup Json.Value where
  codec := Codec.json.codec .pretty .null
  same := Json.Value.same
  config := config
  marks := marks

/-- Opens the cell of a command, puts one request to it, closes it, and gives the answer. -/
def ask (c : Command) (marks : Cell.Marks) (repair : Option (Codec.Error → Cell.Outcome Json.Value))
    (request : Cell.Request Json.Value) (b : Running) : Except Error Json.Value × Running :=
  match configOf c.config b with
  | (.error e, b) => (.error e, b)
  | (.ok config, b) =>
    match Cell.build { setup marks config with handler := repair } (some (.path c.path)) true b with
    | (.error e, b) => (.error (.cannotOpen c.path e), b)
    | (.ok worker, b) =>
      let (replies, session) := Session.submit [request, .close] ⟨worker, b⟩
      match replies with
      | .answer a :: _ => (a.mapError .ofCell, session.bench)
      | _ => (.error (.ofCell .closed), session.bench)

/-- What is to be said of the bytes found in the file. -/
def verdict : Option Bytes → Except Error String
  | none => .ok "missing"
  | some bs =>
    match Codec.json.decode bs with
    | .ok _ => .ok "ok"
    | .error e => if e.isCorruption then .ok "corrupt" else .error ⟨.io, e.display⟩

def check (c : Command) (b : Running) : Except Error Json.Value × Running :=
  match configOf c.config b with
  | (.error e, b) => (.error e, b)
  | (.ok config, b) =>
    match Store.Atomic.new c.path config.storeOptions with
    | .error e => (.error (.ofStore e), b)
    | .ok store =>
      let (found, disk) := store.read b.disk
      let status := (found.mapError Error.ofStore).bind verdict
      (status.map fun s => .object [("path", .string c.path.text), ("status", .string s)], { b with disk := disk })

/-- Runs a command on the host. -/
def run (c : Command) (marks : Cell.Marks) (b : Running) : Except Error Json.Value × Running :=
  let setTo (v : Json.Value) : Cell.Request Json.Value := .update (fun _ => .returned v) true
  match c.action with
  | .get => ask c marks none (.read true) b
  | .set text =>
    match Json.Value.parse text with
    | .error e => (.error (.badValue e), b)
    | .ok v => ask c marks none (setTo v) b
  | .reset => ask c marks (some fun _ => .returned .null) (setTo .null) b
  | .check => check c b

/-- What a command prints: its answer over several lines, and a newline. -/
def printed (v : Json.Value) : String := v.text .pretty ++ "\n"

end DurableValue.Cli
