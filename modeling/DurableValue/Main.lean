/-
  DurableValue.Main — the program.

  It looks at the part of the host that a command can touch, runs the command on that picture, carries over what the
  command changed, and only then prints.

  A file is carried over as the command wrote it: into the scratch file first, then by a rename.
-/
import DurableValue.Cli.Process

namespace DurableValue.Cli

open Disk (Host)

/-- A path and those above it, the outermost first; `depth` bounds the way up. -/
def lineage : (depth : Nat) → Path → List Path
  | 0, p => [p]
  | depth + 1, p =>
    match p.parent? with
    | none => [p]
    | some up => lineage depth up ++ [p]

def lineageOf (p : Path) : List Path := lineage p.text.length p

def realPath? (p : Path) : IO (Option Path) := do
  try
    let found ← IO.FS.realPath p.text
    pure (some ⟨found.toString⟩)
  catch _ => pure none

def contents? (p : Path) : IO (Option Bytes) := do
  try
    pure (some (← IO.FS.readBinFile p.text).toList)
  catch _ => pure none

def trailOf (p : Path) : Disk.Trail := p.place.names

/-- Adds to the picture what the host has at a path whose parents are in it already. -/
def look (h : Host) (p : Path) : IO Host := do
  let some real ← realPath? p | pure h
  let found ← contents? p
  let h := match found with
    | some bs => h.put real bs
    | none => h.addDir (trailOf real)
  match p.parent?, p.fileName? with
  | some up, some name =>
    let some above ← realPath? up | pure h
    pure (if (above.join ⟨name⟩).Same real then h else h.addLink p real.text)
  | _, _ => pure h

def lookAll (ps : List Path) (h : Host) : IO Host := ps.foldlM look h

/-- Where the scratch file of a command is, as far as the picture shows its configuration. -/
def scratchOf (c : Command) (h : Host) : Path :=
  let config := match c.config with
    | none => ({} : Config)
    | some p => ((Config.load h p {}).1.toOption).getD {}
  c.path.withSuffix config.scratchSuffix

/-- Writes a file the way the command did. -/
def carryFile (scratch p : Path) (bs : Bytes) : IO Unit := do
  let data : ByteArray := ⟨bs.toArray⟩
  IO.FS.writeBinFile scratch.text data
  if !scratch.Same p then IO.FS.rename scratch.text p.text

/-- Makes the host agree with the picture after the command. -/
def carryOver (c : Command) (scratch : Path) (before after : Host) : IO Unit := do
  if let some up := c.path.parent? then
    if after.isDir up && !before.isDir up then IO.FS.createDirAll up.text
  for p in [c.path, scratch] do
    let old := (before.read p).toOption
    let new := (after.read p).toOption
    if old != new then
      match new with
      | some bs => carryFile scratch p bs
      | none => if (← contents? p).isSome then IO.FS.removeFile p.text

/-- A random name for the cell, in the usual form of such names. -/
def freshName : IO String := do
  let bytes := (← IO.getRandomBytes 16).toList
  let digits := (bytes.zipIdx.map fun b =>
    let n := b.1.toNat
    let n := if b.2 = 6 then n % 16 + 64 else if b.2 = 8 then n % 64 + 128 else n
    (Text.hex (256 + n)).drop 1).map (·.toString)
  let group (start stop : Nat) : String := String.join ((digits.take stop).drop start)
  pure ("-".intercalate [group 0 4, group 4 6, group 6 8, group 8 10, group 10 16])

def usage : String :=
  "Usage: durable-cell get|reset|check --path <PATH> [--config <CONFIG>]\n" ++
    "       durable-cell set --path <PATH> [--config <CONFIG>] --value <VALUE>\n"

def explain (u : Usage) : IO UInt32 := do
  match u with
  | .version => IO.print Arguments.versionLine
  | .help => IO.print usage
  | _ => IO.eprint usage
  match u.exit with
  | .code n => pure n
  | .aborted => pure 134

def execute (c : Command) : IO UInt32 := do
  let environment : Environment :=
    ⟨← IO.getEnv Journal.levelVariable, ← IO.getEnv CrashPoint.settingVariable⟩
  let before ← lookAll (lineageOf c.path ++ (c.config.map lineageOf).getD []) {}
  let scratch := scratchOf c before
  let before ← look before scratch
  let marks : Cell.Marks := ⟨← freshName, "0", "1"⟩
  let finished := process environment marks c before
  carryOver c scratch before finished.host
  IO.print finished.out
  IO.eprint finished.err
  match finished.exit with
  | .code n => pure n
  | .aborted => pure 134

end DurableValue.Cli

def main (args : List String) : IO UInt32 :=
  match DurableValue.Cli.Arguments.parse args with
  | .error u => DurableValue.Cli.explain u
  | .ok c => DurableValue.Cli.execute c
