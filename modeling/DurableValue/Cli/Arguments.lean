/-
  DurableValue.Cli.Arguments — reading the arguments of the command line.

  A command is a word, then options `--name value` or `--name=value` in any order. An option that still waits for its
  value, or has got one, is settled when the next known option or the end comes; that is when it is found to be empty
  or given twice. An argument that begins with a dash is never taken as the value of an option, a single dash apart.
-/
import DurableValue.Path

namespace DurableValue.Cli

inductive Action where
  | get
  | set (value : String)
  | reset
  | check
  deriving DecidableEq, Repr

structure Command where
  action : Action
  path : Path
  config : Option Path
  deriving DecidableEq, Repr

/-- Why arguments are no command. Asking for help or for the version is among the reasons. -/
inductive Usage where
  | missingRequired
  | unknownArgument
  | invalidValue
  | tooManyValues
  | conflict
  | invalidSubcommand
  | help
  | helpOnMissing
  | version
  deriving DecidableEq, Repr

namespace Arguments

/-- The line that answers a question for the version. -/
def versionLine : String := "durable-cell 0.1.0\n"

inductive Verb where
  | get
  | set
  | reset
  | check
  deriving DecidableEq, Repr

def Verb.parse? : String → Option Verb
  | "get" => some .get
  | "set" => some .set
  | "reset" => some .reset
  | "check" => some .check
  | _ => none

inductive Flag where
  | path
  | config
  | value
  deriving DecidableEq, Repr

def Flag.parse? (verb : Verb) : List Char → Option Flag
  | ['p', 'a', 't', 'h'] => some .path
  | ['c', 'o', 'n', 'f', 'i', 'g'] => some .config
  | ['v', 'a', 'l', 'u', 'e'] => if verb = .set then some .value else none
  | _ => none

/-- The options settled so far, and the one that is not. -/
structure Given where
  settled : List (Flag × String) := []
  pending : Option (Flag × Option String) := none

def Given.get? (g : Given) (f : Flag) : Option String := g.settled.lookup f

/-- Settles an option with its value; only the value of `--value` may be empty. -/
def Given.store (g : Given) (f : Flag) (v : String) : Except Usage Given :=
  if (g.get? f).isSome then .error .conflict
  else if v.isEmpty && f != .value then .error .invalidValue
  else .ok { settled := (f, v) :: g.settled, pending := none }

def Given.settle (g : Given) : Except Usage Given :=
  match g.pending with
  | none => .ok g
  | some (_, none) => .error .invalidValue
  | some (f, some v) => g.store f v

/-- How an argument looks before its meaning is known. -/
inductive Shape where
  | separator
  | long (name : List Char) (attached : Option String)
  | short (first : Char)
  | word (text : String)
  deriving DecidableEq, Repr

def Shape.of (arg : String) : Shape :=
  match arg.toList with
  | ['-', '-'] => .separator
  | '-' :: '-' :: cs =>
    match cs.dropWhile (· != '=') with
    | [] => .long cs none
    | _ :: value => .long (cs.takeWhile (· != '=')) (some (.ofList value))
  | '-' :: c :: _ => .short c
  | _ => .word arg

def helpName : List Char := ['h', 'e', 'l', 'p']

def versionName : List Char := ['v', 'e', 'r', 's', 'i', 'o', 'n']

/-- Reads the options of a verb up to the end. -/
def options (verb : Verb) : List String → Given → Except Usage Given
  | [], g => g.settle
  | arg :: rest, g =>
    match Shape.of arg with
    | .separator => if rest.isEmpty then g.settle else .error .unknownArgument
    | .long name attached =>
      match Flag.parse? verb name, attached with
      | some f, none => do options verb rest { ← g.settle with pending := some (f, none) }
      | some f, some v => do options verb rest (← (← g.settle).store f v)
      | none, attached =>
        if name != helpName then .error .unknownArgument
        else if attached.isSome then .error .tooManyValues
        else do
          let _ ← g.settle
          .error .help
    | .short c => if c = 'h' then do
          let _ ← g.settle
          .error .help
        else .error .unknownArgument
    | .word v =>
      match g.pending with
      | some (f, none) => options verb rest { g with pending := some (f, some v) }
      | _ => .error .unknownArgument

def command (verb : Verb) (g : Given) : Except Usage Command := do
  let some path := g.get? .path | .error .missingRequired
  let action ← match verb with
    | .get => pure Action.get
    | .reset => pure .reset
    | .check => pure .check
    | .set => match g.get? .value with
      | some v => pure (.set v)
      | none => .error .missingRequired
  pure { action := action, path := ⟨path⟩, config := (g.get? .config).map Path.mk }

/-- What `help` answers: at most one command may be named, which may be `help` itself. -/
def help : List String → Usage
  | [] => .help
  | [name] => if (Verb.parse? name).isSome || name = "help" then .help else .invalidSubcommand
  | _ => .invalidSubcommand

def parse (args : List String) : Except Usage Command :=
  match args with
  | [] => .error .helpOnMissing
  | arg :: rest =>
    match Shape.of arg with
    | .separator =>
      match rest with
      | [] => .error .helpOnMissing
      | name :: _ =>
        .error (if (Verb.parse? name).isSome || name = "help" then .unknownArgument else .invalidSubcommand)
    | .long name attached =>
      .error <|
        if name != helpName && name != versionName then .unknownArgument
        else if attached.isSome then .tooManyValues
        else if name = helpName then .help
        else .version
    | .short c => .error (if c = 'h' then .help else if c = 'V' then .version else .unknownArgument)
    | .word name =>
      match Verb.parse? name with
      | some verb => do command verb (← options verb rest {})
      | none => .error (if name = "help" then help rest else .invalidSubcommand)

end Arguments

end DurableValue.Cli
