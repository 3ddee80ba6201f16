/-
  DurableValue.Codec.Settings — the settings of a display, as an example of a record that a cell may hold.

  Fields it does not know are skipped.
-/
import DurableValue.Codec.Json

namespace DurableValue

structure Settings where
  theme : String
  fontSize : Int
  deriving DecidableEq, Repr, Inhabited

namespace Settings

open Json

/-- Settings whose fields are not all read yet. -/
structure Partial where
  theme : Option String := none
  fontSize : Option Int := none

def finish (p : Partial) : Except String Settings :=
  match p.theme, p.fontSize with
  | some theme, some fontSize => .ok ⟨theme, fontSize⟩
  | none, _ => .error "theme"
  | some _, none => .error "font_size"

def record : Record Partial Settings where
  expected := "struct Settings"
  fields := [
    ⟨"theme", (·.theme.isSome), fun p => do return { p with theme := some (← Shape.string) }, false⟩,
    ⟨"font_size", (·.fontSize.isSome), fun p => do return { p with fontSize := some (← Shape.u32) }, false⟩]
  isStrict := false
  blank := {}
  finish := finish

def format : Codec.Format Settings where
  default := ⟨"", 0⟩
  read := record.read
  toValue s := .object [("theme", .string s.theme), ("font_size", .int s.fontSize)]

end Settings

end DurableValue
